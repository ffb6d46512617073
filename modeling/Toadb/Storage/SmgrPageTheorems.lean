/-
Toadb.Storage.SmgrPageTheorems — read after write through the storage manager.

A page of a table in use stays in its file until it is written again, so a
page that was written is read back after any other calls. `TableRead` opens a
descriptor again whose handle was closed; `TableWrite` does not: it writes
nothing and says so, and `WritePage` clears the dirty flag nevertheless.
-/
import Toadb.Storage.SmgrTheorems
import Mathlib.Data.List.Range

namespace Toadb

open Transition

variable {T : Type} [DecidableEq T] {s s' : StorageManager T} {ts : List T} {t : T}

/-! ## Pages in the files -/

/-- What the file of a descriptor has at a page. -/
def pageOnDisk (s : StorageManager T) (vf : VFVec T) (pageno : Nat) : Option PageImage :=
  (s.disk vf).bind fun file => file.read pageno

theorem OsFile.read_write (file : OsFile) {page : PageImage} (h : 0 < page.pageNum) :
    (file.write page).read page.pageNum = some page := by
  have hsize : page.pageNum ≤ max file.size page.pageNum := Nat.le_max_right ..
  rw [OsFile.read, OsFile.write, if_pos ⟨h, hsize⟩]
  exact congrArg some (Function.update_self ..)

theorem OsFile.read_write_of_ne {file : OsFile} {page old : PageImage} {pageno : Nat}
    (hne : pageno ≠ page.pageNum) (h : file.read pageno = some old) :
    (file.write page).read pageno = some old := by
  rw [OsFile.read, Option.ite_none_right_eq_some] at h
  obtain ⟨⟨hpos, hsize⟩, hpage⟩ := h
  have hsize' : pageno ≤ max file.size page.pageNum := Nat.le_trans hsize (Nat.le_max_left ..)
  rw [OsFile.read, OsFile.write, if_pos ⟨hpos, hsize'⟩, ← hpage]
  exact congrArg some (Function.update_of_ne hne ..)

theorem pageOnDisk_update (s : StorageManager T) (vf : VFVec T) (file : Option OsFile)
    (pageno : Nat) : pageOnDisk { s with disk := Function.update s.disk vf file } vf pageno
      = file.bind fun file => file.read pageno := by
  show (Function.update s.disk vf file vf).bind _ = _
  rw [Function.update_self]

/-- The call does not write page `pageno` of the fork. -/
def SmgrCall.Spares (vf : VFVec T) (pageno : Nat) : SmgrCall T → Prop
  | .write t forkNum page _ => ¬ ((t, forkNum) = vf ∧ page.1.pageNum = pageno)
  | .writePage t forkNum page _ => ¬ ((t, forkNum) = vf ∧ page.1.pageNum = pageno)
  | _ => True

instance (vf : VFVec T) (pageno : Nat) (a : SmgrCall T) : Decidable (a.Spares vf pageno) := by
  unfold SmgrCall.Spares
  split <;> infer_instance

variable {vf : VFVec T} {pageno : Nat} {page : PageImage}

/-- A write elsewhere. -/
theorem SmgrOk.pageOnDisk_write (h : SmgrOk s) (ht : t ∈ s.tblList) {forkNum : ForkType}
    {new : PageImage} (hspares : ¬ ((t, forkNum) = vf ∧ new.pageNum = pageno))
    (accepted : Bool) (hpage : pageOnDisk s vf pageno = some page) :
    pageOnDisk (Toadb.tableWrite s t forkNum new accepted).2 vf pageno = some page := by
  rw [h.tableWrite ht]
  obtain ⟨-, hfail, hdone⟩ := fileWritePage_eq h.handles (t, forkNum) new accepted
  cases hret : (fileWritePage s (s.pfh (t, forkNum)) new accepted).1 with
  | false => rwa [hfail hret]
  | true =>
    obtain ⟨file, hfile, hs⟩ := hdone hret
    rw [hs]
    by_cases hvf : (t, forkNum) = vf
    · subst hvf
      rw [pageOnDisk, hfile, Option.bind_some] at hpage
      rw [pageOnDisk_update, Option.bind_some]
      exact OsFile.read_write_of_ne (fun hno => hspares ⟨rfl, hno.symm⟩) hpage
    · show (Function.update s.disk (t, forkNum) _ vf).bind _ = _
      rwa [Function.update_of_ne (Ne.symm hvf)]

/-- The page of a known table stays until it is written. -/
theorem SmgrOk.pageOnDisk_step {a : SmgrCall T} (h : SmgrOk s) (hvf : vf.1 ∈ s.tblList)
    (hspares : a.Spares vf pageno) (hstep : smgrStep s a = some s')
    (hpage : pageOnDisk s vf pageno = some page) : pageOnDisk s' vf pageno = some page := by
  have hcall := h.step hstep
  have hother : vf.1 ≠ a.table → pageOnDisk s' vf pageno = some page := fun hne => by
    rwa [pageOnDisk, hcall.disk vf hne]
  cases a with
  | create t tblDef =>
    rw [smgrStep, Option.some.injEq] at hstep
    split at hstep
    · rwa [← hstep]
    · rename_i ht
      exact hother fun heq : vf.1 = t => ht (heq ▸ hvf)
  | openTable t =>
    rw [smgrStep, Option.some.injEq] at hstep
    split at hstep
    · rwa [← hstep]
    · rename_i ht
      exact hother fun heq : vf.1 = t => ht (heq ▸ hvf)
  | read t forkNum no =>
    rw [smgrStep, Option.ite_none_right_eq_some, Option.some.injEq] at hstep
    obtain ⟨ht, rfl⟩ := hstep
    obtain ⟨s₁, hread, hkept⟩ := h.tableRead ht forkNum no
    rwa [hread, pageOnDisk, hkept.disk_eq]
  | write t forkNum new accepted =>
    rw [smgrStep, Option.ite_none_right_eq_some, Option.some.injEq] at hstep
    obtain ⟨ht, rfl⟩ := hstep
    exact h.pageOnDisk_write ht hspares accepted hpage
  | writePage t forkNum new accepted =>
    rw [smgrStep, Option.ite_none_right_eq_some, Option.some.injEq] at hstep
    obtain ⟨ht, rfl⟩ := hstep
    exact h.pageOnDisk_write ht hspares accepted hpage

/-! ## The result -/

/-- A page that was written is what the next read of it returns. -/
def ReadsWritten (s : StorageManager T) (t : T) (forkNum : ForkType) (page : NumberedPage)
    (accepted : Bool) : Prop :=
  ∀ s' as s'', tableWrite s t forkNum page.1 accepted = (true, s') →
    Along smgrStep (fun _ a => a.Spares (t, forkNum) page.1.pageNum) s' as →
    run smgrStep s' as = some s'' → (tableRead s'' t forkNum page.1.pageNum).1 = some page.1

/-- A page whose bytes did not reach the file stays dirty. -/
def KeepsUnwritten (s : StorageManager T) (t : T) (forkNum : ForkType) (page : NumberedPage)
    (accepted : Bool) : Prop :=
  (writePage s t forkNum page.1 accepted).1 = false →
    (writePage s t forkNum page.1 accepted).2.isDirty (t, forkNum) page.1.pageNum = true

theorem SmgrOk.readsWritten (h : SmgrOk s) (ht : t ∈ s.tblList) (forkNum : ForkType)
    (page : NumberedPage) (accepted : Bool) : ReadsWritten s t forkNum page accepted := by
  intro s' as s'' hwrite halong hrun
  have hcall := h.write_kept ht forkNum page.1 accepted
  obtain ⟨-, -, hdone⟩ := fileWritePage_eq h.handles (t, forkNum) page.1 accepted
  rw [← h.tableWrite ht] at hdone
  obtain ⟨file, -, hs⟩ := hdone (by rw [hwrite])
  rw [hwrite] at hcall hs
  have hpage : pageOnDisk s' (t, forkNum) page.1.pageNum = some page.1 := by
    rw [show s' = _ from hs, pageOnDisk_update, Option.bind_some]
    exact file.read_write page.2
  obtain ⟨hok, ht'', hpage''⟩ := run_invariant
    (I := fun u => SmgrOk u ∧ t ∈ u.tblList ∧
      pageOnDisk u (t, forkNum) page.1.pageNum = some page.1)
    (fun ⟨hu, htu, hpu⟩ hspares hstep => ⟨(hu.step hstep).ok, (hu.step hstep).tblList t htu,
      hu.pageOnDisk_step htu hspares hstep hpu⟩)
    ⟨hcall.ok, hcall.tblList t ht, hpage⟩ halong hrun
  obtain ⟨u, hread, -⟩ := hok.tableRead ht'' forkNum page.1.pageNum
  rw [hread]
  exact hpage''

theorem SmgrOk.keepsUnwritten_iff (h : SmgrOk s) (ht : t ∈ s.tblList) (forkNum : ForkType)
    (page : NumberedPage) (accepted : Bool) : KeepsUnwritten s t forkNum page accepted ↔
      (s.pfh (t, forkNum)).isSome = true ∧ accepted = true := by
  have hdirty : (writePage s t forkNum page.1 accepted).2.isDirty (t, forkNum) page.1.pageNum
      = false := by
    simp [writePage]
  have hret : (writePage s t forkNum page.1 accepted).1
      = (fileWritePage s (s.pfh (t, forkNum)) page.1 accepted).1 := by
    rw [writePage, h.tableWrite ht]
  rw [KeepsUnwritten, hdirty, hret,
    ← (fileWritePage_eq h.handles (t, forkNum) page.1 accepted).1]
  simp

/-- In every run, a page that was written is read back; and a page that could not be
written stays dirty exactly when the handle is open and the system takes the
page — when it could be written. -/
theorem storage_readAfterWrite_iff {disk : VFVec T → Option OsFile} {as : List (SmgrCall T)}
    (hrun : run smgrStep (initSmgr disk) as = some s) (ht : t ∈ s.tblList)
    (forkNum : ForkType) (page : NumberedPage) (accepted : Bool) :
    ReadsWritten s t forkNum page accepted ∧ KeepsUnwritten s t forkNum page accepted ↔
      (s.pfh (t, forkNum)).isSome = true ∧ accepted = true := by
  have hok : SmgrOk s :=
    run_invariant_of_step (fun h hstep => (h.step hstep).ok) (smgrOk_init disk) hrun
  rw [hok.keepsUnwritten_iff ht]
  exact and_iff_right (hok.readsWritten ht forkNum page accepted)

/-! ## Five hundred tables -/

/-- Below the limit a new descriptor closes nothing. -/
theorem getVFec_room {forkNum : ForkType} (hfind : findVF s (s.vfhead t) forkNum = none)
    (hroom : s.fileOpenedNum < s.fileMaxNum) :
    (getVFec s t forkNum).2.pfh = Function.update s.pfh (t, forkNum) none ∧
      (getVFec s t forkNum).2.fileOpenedNum = s.fileOpenedNum ∧
      (getVFec s t forkNum).2.fileMaxNum = s.fileMaxNum := by
  have hlink : ∀ u : StorageManager T, (linkVF u t (t, forkNum)).pfh = u.pfh ∧
      (linkVF u t (t, forkNum)).fileOpenedNum = u.fileOpenedNum ∧
      (linkVF u t (t, forkNum)).fileMaxNum = u.fileMaxNum := by
    intro u
    unfold linkVF
    split
    · exact ⟨rfl, rfl, rfl⟩
    · split <;> exact ⟨rfl, rfl, rfl⟩
  obtain ⟨hpfh, hopened, hmax⟩ :=
    hlink { s with pfh := Function.update s.pfh (t, forkNum) none }
  rw [getVFec, hfind]
  dsimp only
  rw [addFileInfoToSmgrContext]
  have hopen : ¬ s.fileMaxNum - 1 < s.fileOpenedNum := by omega
  rw [if_neg (by rw [hopened, hmax]; exact hopen)]
  exact ⟨hpfh, hopened, hmax⟩

/-- `smgr_create` of a new file below the limit. -/
theorem smgrCreate_room {s₁ : StorageManager T} {forkNum : ForkType}
    (hfind : findVF s (s.vfhead t) forkNum = none) (hroom : s.fileOpenedNum < s.fileMaxNum)
    (hv : getVFec s t forkNum = ((t, forkNum), s₁)) (hdisk₁ : s₁.disk = s.disk)
    (hdisk : s.disk (t, forkNum) = none) :
    ∃ u, smgrCreate s t forkNum = (some (t, forkNum), u) ∧
      u.pfh = Function.update s.pfh (t, forkNum) (some (t, forkNum)) ∧
      u.fileOpenedNum = s.fileOpenedNum + 1 ∧ u.fileMaxNum = s.fileMaxNum ∧
      u.disk = Function.update s.disk (t, forkNum) (some OsFile.empty) := by
  obtain ⟨hpfh, hopened, hmax⟩ := getVFec_room hfind hroom
  rw [hv] at hpfh hopened hmax
  dsimp only at hpfh hopened hmax
  refine ⟨addFileToSmgrContext
    { s₁ with disk := Function.update s₁.disk (t, forkNum) (some OsFile.empty) }
    (t, forkNum) (some (t, forkNum)), ?_, ?_, ?_, hmax, ?_⟩
  · rw [smgrCreate, hv]
    simp [hpfh, hdisk₁, hdisk]
  · rw [addFileToSmgrContext, hpfh, Function.update_idem]
  · rw [addFileToSmgrContext, hopened]
  · rw [addFileToSmgrContext, hdisk₁]

/-- A new table whose head pages are accepted. -/
def plainTable : TableMetaInfo := ⟨[], [], true, true⟩

/-- `TableFileInit` through open handles. -/
theorem Linked.tableFileInit_open (h : Linked s ts) (hh : HandlesOk s) (ht : t ∈ ts)
    (hopen : ∀ forkNum, s.pfh (t, forkNum) = some (t, forkNum)) :
    ∃ u, Toadb.tableFileInit s t plainTable = (true, u) ∧ u.pfh = s.pfh ∧
      u.fileOpenedNum = s.fileOpenedNum ∧ u.fileMaxNum = s.fileMaxNum := by
  obtain ⟨main, hmain⟩ := Option.isSome_iff_exists.mp (hh _ _ (hopen .main)).2
  obtain ⟨group, hgroup⟩ := Option.isSome_iff_exists.mp (hh _ _ (hopen .group)).2
  let head : PageImage := ⟨pageHeadPageNum, []⟩
  let s₁ : StorageManager T :=
    { s with disk := Function.update s.disk (t, .main) (some (main.write head)) }
  have hlinked₁ : Linked s₁ ts := h.congr rfl rfl
  have hwrite : Toadb.tableWrite s t .main head true = (true, s₁) := by
    rw [h.tableWrite ht, hopen, fileWritePage, hmain]
    rfl
  have hsmgrOpen : Toadb.smgrOpen s₁ t .main = (some (t, .main), s₁) := by
    rw [Toadb.smgrOpen, hlinked₁.getVFec ht]
    simp [s₁, hopen]
  have hread : Toadb.tableRead s₁ t .main pageHeadPageNum = (some head, s₁) := by
    rw [Toadb.tableRead, hlinked₁.findVF ht]
    have hpfh : s₁.pfh (t, .main) = some (t, .main) := hopen .main
    simp only [Option.filter, hpfh, Option.isSome_some, if_true,
      fileReadPage, Option.bind_some]
    rw [show s₁.disk (t, .main) = some (main.write head) from
      Function.update_self .., Option.bind_some]
    rw [show pageHeadPageNum = head.pageNum from rfl, main.read_write Nat.one_pos]
  have hwrite' : ∃ u, Toadb.tableWrite s₁ t .group head true = (true, u) ∧ u.pfh = s.pfh ∧
      u.fileOpenedNum = s.fileOpenedNum ∧ u.fileMaxNum = s.fileMaxNum := by
    have hdisk : s₁.disk (t, .group) = some group := by
      rw [← hgroup]
      exact Function.update_of_ne (by simp) ..
    have hpfh : s₁.pfh (t, .group) = some (t, .group) := hopen .group
    rw [hlinked₁.tableWrite ht, hpfh, fileWritePage, hdisk]
    exact ⟨_, rfl, rfl, rfl, rfl⟩
  obtain ⟨u, hgroupWrite, hu⟩ := hwrite'
  refine ⟨u, ?_, hu⟩
  rw [Toadb.tableFileInit, show plainTable.acceptMain = true from rfl,
    show (⟨pageHeadPageNum, plainTable.mainBody⟩ : PageImage) = head from rfl, hwrite]
  simp only [hsmgrOpen, hread]
  rw [show plainTable.acceptGroup = true from rfl,
    show (⟨pageHeadPageNum, plainTable.groupBody⟩ : PageImage) = head from rfl, hgroupWrite]
  rfl

/-- The first `k` tables were created, and all their files are open. -/
structure Created (s : StorageManager Nat) (k : Nat) : Prop where
  linked : Linked s (List.range k)
  handles : HandlesOk s
  opened : s.fileOpenedNum = 2 * k
  max : s.fileMaxNum = 1000
  pfh : ∀ vf, vf.1 < k → s.pfh vf = some vf
  disk : ∀ vf, k ≤ vf.1 → s.disk vf = none
  tblList : ∀ t, t ∈ s.tblList ↔ t < k

theorem Created.create {s : StorageManager Nat} {k : Nat} (h : Created s k) (hk : k < 500) :
    Created (createTblInfo s k plainTable) (k + 1) := by
  have hnot : k ∉ List.range k := by simp
  -- The first descriptor and its file, then the second.
  obtain ⟨s₁, hv₁, hhalf₁, hkept₁, hdisk₁⟩ := h.linked.getVFec_main hnot
  obtain ⟨s₂, hcreate₂, hpfh₂, hopened₂, hmax₂, hfile₂⟩ :=
    smgrCreate_room (h.linked.findVF_of_notMem hnot .main)
      (by rw [h.opened, h.max]; omega) hv₁
      hdisk₁ (h.disk _ (Nat.le_refl k))
  obtain ⟨hkept₂, hring₂, hhead₂, -⟩ := smgrCreate_kept hv₁
  rw [hcreate₂] at hkept₂ hring₂ hhead₂
  have hkept₂ := hkept₁.trans hkept₂
  have hhalf₂ := hhalf₁.congr hring₂ hhead₂
  obtain ⟨s₃, hv₃, hlinked₃, hkept₃, hdisk₃⟩ := hhalf₂.getVFec_group
  obtain ⟨s₄, hcreate₄, hpfh₄, hopened₄, hmax₄, -⟩ :=
    smgrCreate_room hhalf₂.findVF_group (by rw [hopened₂, hmax₂, h.opened, h.max]; omega) hv₃
      hdisk₃ (by rw [hfile₂, Function.update_of_ne (by simp), h.disk _ (Nat.le_refl k)])
  obtain ⟨hkept₄, hring₄, hhead₄, -⟩ := smgrCreate_kept hv₃
  rw [hcreate₄] at hkept₄ hring₄ hhead₄
  have hkept₄ := (hkept₂.trans hkept₃).trans hkept₄
  have hlinked₄ := hlinked₃.congr hring₄ hhead₄
  have hopen₄ : ∀ vf, vf.1 < k + 1 → s₄.pfh vf = some vf := by
    rintro ⟨t, forkNum⟩ hlt
    rw [hpfh₄, hpfh₂]
    by_cases ht : t = k
    · subst ht
      cases forkNum <;> simp
    · simp only [ne_eq, Prod.mk.injEq, ht, false_and, not_false_eq_true,
        Function.update_of_ne]
      exact h.pfh _ (by omega)
  -- The head pages are written through the open handles.
  have hh₄ := hkept₄.handles h.handles
  have hmem : k ∈ List.range k ++ [k] := List.mem_append_right _ (List.mem_singleton_self k)
  have hown : ∀ forkNum, s₄.pfh (k, forkNum) = some (k, forkNum) :=
    fun forkNum => hopen₄ (k, forkNum) (Nat.lt_succ_self k)
  obtain ⟨u, hinit, hpfh, hopened, hmax⟩ := hlinked₄.tableFileInit_open hh₄ hmem hown
  obtain ⟨hkept, hlinked⟩ :=
    hlinked₄.tableFileInit hh₄ hmem (fun forkNum => (hh₄ _ _ (hown forkNum)).2) plainTable
  rw [hinit] at hkept hlinked
  have hkept := hkept₄.trans hkept
  have heq : createTblInfo s k plainTable = { u with tblList := k :: u.tblList } := by
    rw [createTblInfo, hcreate₂]
    dsimp only
    rw [hcreate₄]
    dsimp only
    rw [hinit]
  rw [heq]
  rw [← List.range_succ] at hlinked
  refine ⟨⟨hlinked.nodup, hlinked.ring, hlinked.head⟩, hkept.handles h.handles, ?_, ?_,
    fun vf hvf => ?_, fun vf hvf => ?_, fun t => ?_⟩
  · show u.fileOpenedNum = 2 * (k + 1)
    rw [hopened, hopened₄, hopened₂, h.opened]
    omega
  · show u.fileMaxNum = 1000
    rw [hmax, hmax₄, hmax₂, h.max]
  · show u.pfh vf = some vf
    rw [hpfh]
    exact hopen₄ vf hvf
  · show u.disk vf = none
    rw [hkept.disk vf (by omega)]
    exact h.disk vf (by omega)
  · show t ∈ k :: u.tblList ↔ t < k + 1
    rw [hkept.tblList, List.mem_cons, h.tblList]
    omega

/-- The calls that create the first `k` tables. -/
def createTables (k : Nat) : List (SmgrCall Nat) :=
  (List.range k).map fun t => .create t plainTable

theorem run_createTables {k : Nat} (hk : k ≤ 500) :
    ∃ s, run smgrStep (initSmgr fun _ => none) (createTables k) = some s ∧ Created s k := by
  induction k with
  | zero =>
    refine ⟨_, rfl, ⟨List.nodup_nil, rfl, fun _ => rfl⟩, ?_, rfl, rfl, ?_, fun _ _ => rfl, ?_⟩
    · intro vf name hpfh
      cases hpfh
    · intro vf hvf
      exact absurd hvf (Nat.not_lt_zero _)
    · intro t
      simp [initSmgr]
  | succ k ih =>
    obtain ⟨s, hrun, hs⟩ := ih (by omega)
    have hnew : k ∉ s.tblList := by simp [hs.tblList]
    refine ⟨createTblInfo s k plainTable, ?_, hs.create (by omega)⟩
    rw [createTables, List.range_succ, List.map_append]
    refine run_append.mpr ⟨s, hrun, ?_⟩
    simp [run, smgrStep, hnew]

/-- Three tables, with pages in the files of two of them. -/
def threeTableFiles : StorageManager Nat :=
  exec smgrStep (initSmgr fun _ => none) (createTables 3 ++
    [.write 0 .main ⟨⟨2, [5]⟩, Nat.two_pos⟩ true,
      .writePage 2 .main ⟨⟨3, [6]⟩, Nat.succ_pos 2⟩ true, .read 0 .main 2])

/-- Another content of page 2. -/
def pageTwo : NumberedPage := ⟨⟨2, [7]⟩, Nat.two_pos⟩

/-- In each of them the page is written and read back. -/
theorem storage_readAfterWrite_threeTables :
    (ReadsWritten threeTableFiles 0 .main pageTwo true ∧
        KeepsUnwritten threeTableFiles 0 .main pageTwo true) ∧
      (ReadsWritten threeTableFiles 1 .main pageTwo true ∧
        KeepsUnwritten threeTableFiles 1 .main pageTwo true) ∧
      ReadsWritten threeTableFiles 2 .main pageTwo true ∧
        KeepsUnwritten threeTableFiles 2 .main pageTwo true := by
  have hrun : run smgrStep (initSmgr fun _ => none) _ = some threeTableFiles :=
    run_exec (by decide)
  have hopen : ∀ t < 3, t ∈ threeTableFiles.tblList ∧
      (threeTableFiles.pfh (t, .main)).isSome = true := by
    decide
  have hreads (t : Nat) (ht : t < 3) : ReadsWritten threeTableFiles t .main pageTwo true ∧
      KeepsUnwritten threeTableFiles t .main pageTwo true :=
    (storage_readAfterWrite_iff hrun (hopen t ht).1 .main pageTwo true).mpr
      ⟨(hopen t ht).2, rfl⟩
  exact ⟨hreads 0 (by decide), hreads 1 (by decide), hreads 2 (by decide)⟩

/-- At the limit the first descriptor of a further table closes the oldest handle. -/
theorem Created.closed {s s₁ : StorageManager Nat} (h : Created s 500)
    (hv : getVFec s 500 .main = ((500, .main), s₁)) : s₁.pfh (0, .main) = none := by
  have hnot : 500 ∉ List.range 500 := by simp
  have hring : s.ring = (0, .main) :: (s.ring.tail) := by
    rw [h.linked.ring, show 500 = 499 + 1 from rfl, List.range_succ_eq_map]
    rfl
  have hhead : s.vfhead 500 = none := by rw [h.linked.head, if_neg hnot]
  rw [getVFec, h.linked.findVF_of_notMem hnot] at hv
  have hs₁ := (Prod.mk.inj hv).2
  rw [← hs₁, addFileInfoToSmgrContext]
  have hlink : ∀ u : StorageManager Nat, u.ring = s.ring → u.vfhead = s.vfhead →
      linkVF u 500 (500, .main) = { u with
        ring := s.ring ++ [(500, .main)]
        vfhead := Function.update s.vfhead 500 (some (500, .main)) } := by
    intro u hu hu'
    rw [linkVF, hu, hu', if_neg (by rw [hring]; simp), hhead]
  rw [hlink { s with pfh := Function.update s.pfh (500, .main) none } rfl rfl]
  dsimp only
  rw [if_pos (by rw [h.opened, h.max]; omega), closeFileSmgrContext]
  have hopen : Function.update s.pfh ((500, .main) : VFVec Nat) none (0, .main)
      = some (0, .main) :=
    (Function.update_of_ne (by simp) ..).trans (h.pfh _ (by omega))
  have hfind : (s.ring ++ [(500, ForkType.main)]).find?
      (fun vf => (Function.update s.pfh ((500, ForkType.main) : VFVec Nat) none vf).isSome)
      = some (0, .main) := by
    rw [hring]
    simp only [List.cons_append, List.find?_cons, hopen, Option.isSome_some]
  dsimp only
  rw [hfind]
  simp only [smgrClose, hopen, reduceCtorEq, if_false, Function.update_self]

/-- The handle of the first table is closed when the 501st is created. The next
`WritePage` of the first table writes nothing and leaves the page clean. -/
theorem writePage_lost : ∃ (as : List (SmgrCall Nat)) (s : StorageManager Nat)
    (page : NumberedPage), run smgrStep (initSmgr fun _ => none) as = some s ∧ 0 ∈ s.tblList ∧
      (writePage s 0 .main page.1 true).1 = false ∧
      ¬ (ReadsWritten s 0 .main page true ∧ KeepsUnwritten s 0 .main page true) := by
  obtain ⟨s, hrun, hs⟩ := run_createTables (Nat.le_refl 500)
  have hnot : 500 ∉ List.range 500 := by simp
  have hnew : 500 ∉ s.tblList := by simp [hs.tblList]
  obtain ⟨s₁, hv₁, hhalf₁, hkept₁, -⟩ := hs.linked.getVFec_main hnot
  have hknown := hhalf₁.createTblInfo hv₁ (hkept₁.handles hs.handles) plainTable
  have hok : SmgrOk s :=
    run_invariant_of_step (fun h hstep => (h.step hstep).ok) (smgrOk_init _) hrun
  have hcall := hok.createTblInfo hnew plainTable
  have hmem : 0 ∈ (createTblInfo s 500 plainTable).tblList :=
    hcall.tblList 0 ((hs.tblList 0).mpr (by omega))
  have hclosed : (createTblInfo s 500 plainTable).pfh (0, .main) = none := by
    obtain ⟨u, hkept, hend⟩ := hknown
    have hu : (createTblInfo s 500 plainTable).pfh = u.pfh := by
      rcases hend with ⟨heq, -⟩ | ⟨heq, -, -⟩ <;> rw [heq]
    rw [hu]
    rcases hkept.pfh (0, .main) (by simp) with hsame | hnone
    · rw [hsame, hs.closed hv₁]
    · exact hnone
  let page : NumberedPage := ⟨⟨2, [1]⟩, Nat.two_pos⟩
  refine ⟨createTables 500 ++ [.create 500 plainTable], createTblInfo s 500 plainTable, page,
    run_append.mpr ⟨s, hrun, by simp [run, smgrStep, hnew]⟩, hmem, ?_, ?_⟩
  · rw [writePage, hcall.ok.tableWrite hmem, hclosed]
    rfl
  · rintro ⟨-, hkeeps⟩
    have hopen := ((hcall.ok.keepsUnwritten_iff hmem .main page true).mp hkeeps).1
    rw [hclosed] at hopen
    cases hopen

end Toadb
