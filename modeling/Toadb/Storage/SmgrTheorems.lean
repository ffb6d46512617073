/-
Toadb.Storage.SmgrTheorems — what the calls of the storage manager keep.

The ring is a sequence of blocks, the two descriptors of one table after the
other (`Linked`), so a search finds the table's own descriptor although it
walks a list of all tables; while a table is made known it has the first
only (`HalfLinked`). Handles come and go; an open one is the handle of the
descriptor's own file (`HandlesOk`). Every call keeps the two (`SmgrOk.step`).
-/
import Toadb.Storage.Smgr
import Mathlib.Data.List.Nodup

namespace Toadb

open Transition

variable {T : Type} [DecidableEq T] {s s' : StorageManager T} {ts : List T} {t : T}

/-! ## The ring -/

/-- The descriptors of a table, in the order they are linked. -/
def forks (t : T) : List (VFVec T) := [(t, .main), (t, .group)]

/-- The tables `ts` have both their descriptors in the ring, and no other does. -/
structure Linked (s : StorageManager T) (ts : List T) : Prop where
  nodup : ts.Nodup
  ring : s.ring = ts.flatMap forks
  head : ∀ t, s.vfhead t = if t ∈ ts then some (t, .main) else none

/-- One more table has its first descriptor. -/
structure HalfLinked (s : StorageManager T) (ts : List T) (t : T) : Prop where
  nodup : ts.Nodup
  notMem : t ∉ ts
  ring : s.ring = ts.flatMap forks ++ [(t, .main)]
  head : ∀ t', s.vfhead t' = if t' ∈ ts ∨ t' = t then some (t', .main) else none

theorem dropWhile_forks (ht : t ∈ ts) (rest : List (VFVec T)) :
    ∃ tail, (ts.flatMap forks ++ rest).dropWhile (· ≠ (t, .main))
      = (t, .main) :: (t, .group) :: tail := by
  induction ts with
  | nil => cases ht
  | cons a ts ih =>
    by_cases ha : a = t
    · subst ha
      exact ⟨ts.flatMap forks ++ rest, by simp [forks]⟩
    · obtain ⟨tail, htail⟩ := ih ((List.mem_cons.mp ht).resolve_left (Ne.symm ha))
      refine ⟨tail, ?_⟩
      rw [← htail]
      simp [forks, ha]

theorem dropWhile_forks_of_notMem (ht : t ∉ ts) (rest : List (VFVec T)) :
    (ts.flatMap forks ++ rest).dropWhile (· ≠ (t, .main))
      = rest.dropWhile (· ≠ (t, .main)) := by
  induction ts with
  | nil => rfl
  | cons a ts ih =>
    rw [List.mem_cons, not_or] at ht
    rw [← ih ht.2]
    simp [forks, Ne.symm ht.1]

/-- A search from a table's first descriptor finds the table's own. -/
theorem Linked.findVF (h : Linked s ts) (ht : t ∈ ts) (forkNum : ForkType) :
    findVF s (s.vfhead t) forkNum = some (t, forkNum) := by
  obtain ⟨tail, htail⟩ := dropWhile_forks ht []
  rw [List.append_nil, ← h.ring] at htail
  rw [Toadb.findVF, h.head, if_pos ht, Option.bind_some, nextVF, htail]
  cases forkNum <;> simp

theorem Linked.findVF_of_notMem (h : Linked s ts) (ht : t ∉ ts) (forkNum : ForkType) :
    Toadb.findVF s (s.vfhead t) forkNum = none := by
  rw [Toadb.findVF, h.head, if_neg ht, Option.bind_none]

/-- Behind a first descriptor that ends the ring comes the first of another table. -/
theorem HalfLinked.findVF_group (h : HalfLinked s ts t) :
    findVF s (s.vfhead t) .group = none := by
  have hdrop : s.ring.dropWhile (· ≠ (t, .main)) = [(t, .main)] := by
    rw [h.ring, dropWhile_forks_of_notMem h.notMem]
    simp
  have hnext : (nextVF s (t, .main)).2 = .main := by
    rw [nextVF, hdrop, h.ring]
    cases ts with
    | nil => rfl
    | cons a ts => simp [forks]
  rw [findVF, h.head, if_pos (.inr rfl), Option.bind_some]
  simp [hnext]

theorem addDListNext_forks (ht : t ∉ ts) :
    addDListNext (ts.flatMap forks ++ [(t, .main)]) (t, .main) (t, .group)
      = (ts ++ [t]).flatMap forks := by
  have hold : addDListNext (ts.flatMap forks) (t, .main) (t, .group) = ts.flatMap forks := by
    induction ts with
    | nil => rfl
    | cons a ts ih =>
      rw [List.mem_cons, not_or] at ht
      have htail := ih ht.2
      rw [addDListNext] at htail ⊢
      simp [forks, Ne.symm ht.1] at htail ⊢
      exact htail
  rw [addDListNext] at hold
  rw [addDListNext, List.flatMap_append, hold]
  simp [forks]

theorem filter_forks (ht : t ∉ ts) :
    (ts.flatMap forks).filter (·.1 ≠ t) = ts.flatMap forks := by
  rw [List.filter_eq_self]
  intro vf hvf
  obtain ⟨a, ha, hvf⟩ := List.mem_flatMap.mp hvf
  have hfst : vf.1 = a := by
    simp only [forks, List.mem_cons, List.not_mem_nil, or_false] at hvf
    rcases hvf with rfl | rfl <;> rfl
  rw [decide_eq_true_eq, hfst]
  rintro rfl
  exact ht ha

/-! ## Handles -/

/-- An open handle is on the file of its descriptor. -/
def HandlesOk (s : StorageManager T) : Prop :=
  ∀ vf name, s.pfh vf = some name → name = vf ∧ (s.disk vf).isSome = true

/-- What a call for table `t` leaves alone: everything but the table's own files and
links, and no handle of another table is opened. -/
structure OthersKept (t : T) (s s' : StorageManager T) : Prop where
  handles : HandlesOk s → HandlesOk s'
  disk : ∀ vf, vf.1 ≠ t → s'.disk vf = s.disk vf
  files : ∀ vf, (s.disk vf).isSome = true → (s'.disk vf).isSome = true
  pfh : ∀ vf, vf.1 ≠ t → s'.pfh vf = s.pfh vf ∨ s'.pfh vf = none
  tblList : s'.tblList = s.tblList

omit [DecidableEq T] in
theorem OthersKept.refl (t : T) (s : StorageManager T) : OthersKept t s s :=
  ⟨id, fun _ _ => rfl, fun _ h => h, fun _ _ => .inl rfl, rfl⟩

omit [DecidableEq T] in
theorem OthersKept.trans {s₁ s₂ s₃ : StorageManager T} (h : OthersKept t s₁ s₂)
    (h' : OthersKept t s₂ s₃) : OthersKept t s₁ s₃ where
  handles := fun hs => h'.handles (h.handles hs)
  disk := fun vf hvf => (h'.disk vf hvf).trans (h.disk vf hvf)
  files := fun vf hvf => h'.files vf (h.files vf hvf)
  pfh := fun vf hvf => by
    rcases h'.pfh vf hvf with hsame | hnone
    · rw [hsame]
      exact h.pfh vf hvf
    · exact .inr hnone
  tblList := h'.tblList.trans h.tblList

/-- Closing a handle. -/
theorem othersKept_close (t : T) (s : StorageManager T) (vf : VFVec T) (n : Nat) :
    OthersKept t s { s with pfh := Function.update s.pfh vf none, fileOpenedNum := n } where
  handles := fun h vf' name hpfh => by
    by_cases hvf : vf' = vf
    · rw [hvf] at hpfh
      simp at hpfh
    · exact h vf' name (by simpa [hvf] using hpfh)
  disk := fun _ _ => rfl
  files := fun _ h => h
  pfh := fun vf' _ => by
    by_cases hvf : vf' = vf
    · exact .inr (by simp [hvf])
    · exact .inl (by simp [hvf])
  tblList := rfl

/-- Opening the table's own file. -/
theorem othersKept_open (s : StorageManager T) (forkNum : ForkType)
    (hfile : (s.disk (t, forkNum)).isSome = true) :
    OthersKept t s (addFileToSmgrContext s (t, forkNum) (some (t, forkNum))) where
  handles := fun h vf' name hpfh => by
    by_cases hvf : vf' = (t, forkNum)
    · subst hvf
      simp only [addFileToSmgrContext, Function.update_self, Option.some.injEq] at hpfh
      exact ⟨hpfh.symm, hfile⟩
    · exact h vf' name (by simpa [addFileToSmgrContext, hvf] using hpfh)
  disk := fun _ _ => rfl
  files := fun _ h => h
  pfh := fun vf' hvf' => .inl (by
    have hne : vf' ≠ (t, forkNum) := fun heq => hvf' (by rw [heq])
    simp [addFileToSmgrContext, hne])
  tblList := rfl

theorem othersKept_smgrClose (t : T) (s : StorageManager T) (vf : VFVec T) :
    OthersKept t s (smgrClose s vf) := by
  unfold smgrClose
  split
  · exact .refl t s
  · exact othersKept_close t s vf _

theorem othersKept_closeFile (t : T) (s : StorageManager T) :
    OthersKept t s (closeFileSmgrContext s) := by
  unfold closeFileSmgrContext
  split
  · exact othersKept_smgrClose t s _
  · exact .refl t s

omit [DecidableEq T] in
/-- Links are not handles. -/
theorem othersKept_links (t : T) (s : StorageManager T) (ring : List (VFVec T))
    (vfhead : T → Option (VFVec T)) :
    OthersKept t s { s with ring := ring, vfhead := vfhead } :=
  ⟨id, fun _ _ => rfl, fun _ h => h, fun _ _ => .inl rfl, rfl⟩

@[simp] theorem smgrClose_ring (s : StorageManager T) (vf : VFVec T) :
    (smgrClose s vf).ring = s.ring := by unfold smgrClose; split <;> rfl

@[simp] theorem smgrClose_vfhead (s : StorageManager T) (vf : VFVec T) :
    (smgrClose s vf).vfhead = s.vfhead := by unfold smgrClose; split <;> rfl

@[simp] theorem closeFile_ring (s : StorageManager T) :
    (closeFileSmgrContext s).ring = s.ring := by
  unfold closeFileSmgrContext; split <;> simp

@[simp] theorem closeFile_vfhead (s : StorageManager T) :
    (closeFileSmgrContext s).vfhead = s.vfhead := by
  unfold closeFileSmgrContext; split <;> simp

@[simp] theorem addFile_ring (s : StorageManager T) (t : T) (vf : VFVec T) :
    (addFileInfoToSmgrContext s t vf).ring = (linkVF s t vf).ring := by
  unfold addFileInfoToSmgrContext; dsimp only; split <;> simp

@[simp] theorem addFile_vfhead (s : StorageManager T) (t : T) (vf : VFVec T) :
    (addFileInfoToSmgrContext s t vf).vfhead = (linkVF s t vf).vfhead := by
  unfold addFileInfoToSmgrContext; dsimp only; split <;> simp

@[simp] theorem smgrClose_disk (s : StorageManager T) (vf : VFVec T) :
    (smgrClose s vf).disk = s.disk := by unfold smgrClose; split <;> rfl

theorem linkVF_disk (s : StorageManager T) (t : T) (vf : VFVec T) :
    (linkVF s t vf).disk = s.disk := by
  unfold linkVF
  split
  · rfl
  · split <;> rfl

theorem addFile_disk (s : StorageManager T) (t : T) (vf : VFVec T) :
    (addFileInfoToSmgrContext s t vf).disk = s.disk := by
  have hclose : (closeFileSmgrContext (linkVF s t vf)).disk = (linkVF s t vf).disk := by
    unfold closeFileSmgrContext
    split <;> simp
  unfold addFileInfoToSmgrContext
  dsimp only
  split
  · exact hclose.trans (linkVF_disk s t vf)
  · exact linkVF_disk s t vf

theorem othersKept_linkVF (s : StorageManager T) (t : T) (vf : VFVec T) :
    OthersKept t s (linkVF s t vf) := by
  unfold linkVF
  split
  · exact othersKept_links t s _ _
  · split
    · exact othersKept_links t s _ _
    · exact othersKept_links t s _ s.vfhead

theorem othersKept_addFile (s : StorageManager T) (t : T) (vf : VFVec T) :
    OthersKept t s (addFileInfoToSmgrContext s t vf) := by
  unfold addFileInfoToSmgrContext
  dsimp only
  split
  · exact (othersKept_linkVF s t vf).trans (othersKept_closeFile t _)
  · exact othersKept_linkVF s t vf

/-! ## Descriptors -/

theorem Linked.getVFec (h : Linked s ts) (ht : t ∈ ts) (forkNum : ForkType) :
    getVFec s t forkNum = ((t, forkNum), s) := by
  rw [Toadb.getVFec, h.findVF ht]

theorem Linked.congr (h : Linked s ts) (hring : s'.ring = s.ring)
    (hhead : s'.vfhead = s.vfhead) :
    Linked s' ts :=
  ⟨h.nodup, hring.trans h.ring, fun t => by rw [hhead]; exact h.head t⟩

theorem HalfLinked.congr (h : HalfLinked s ts t) (hring : s'.ring = s.ring)
    (hhead : s'.vfhead = s.vfhead) : HalfLinked s' ts t :=
  ⟨h.nodup, h.notMem, hring.trans h.ring, fun t => by rw [hhead]; exact h.head t⟩

/-- The first descriptor of a table. -/
theorem Linked.getVFec_main (h : Linked s ts) (ht : t ∉ ts) :
    ∃ s', Toadb.getVFec s t .main = ((t, .main), s') ∧
      HalfLinked s' ts t ∧ OthersKept t s s' ∧
      s'.disk = s.disk := by
  have hfind := h.findVF_of_notMem ht .main
  have hnone : s.vfhead t = none := by rw [h.head, if_neg ht]
  let s₀ : StorageManager T := { s with pfh := Function.update s.pfh (t, .main) none }
  refine ⟨addFileInfoToSmgrContext s₀ t (t, .main), by rw [Toadb.getVFec, hfind], ?_, ?_, ?_⟩
  · have hlink : HalfLinked (linkVF s₀ t (t, .main)) ts t := by
      refine ⟨h.nodup, ht, ?_, fun t' => ?_⟩
      · rw [← h.ring, linkVF]
        split
        · rename_i hempty
          rw [show s.ring = [] from hempty]
          rfl
        · rw [show s₀.vfhead t = none from hnone]
      · have hhead : (linkVF s₀ t (t, .main)).vfhead
            = Function.update s.vfhead t (some (t, .main)) := by
          rw [linkVF]
          split
          · rfl
          · rw [show s₀.vfhead t = none from hnone]
        rw [hhead]
        by_cases ht' : t' = t
        · subst ht'
          simp
        · simp [ht', h.head]
    exact hlink.congr (addFile_ring ..) (addFile_vfhead ..)
  · exact (othersKept_close t s (t, .main) s.fileOpenedNum).trans (othersKept_addFile s₀ t _)
  · exact addFile_disk ..

/-- The second descriptor of a table. -/
theorem HalfLinked.getVFec_group (h : HalfLinked s ts t) :
    ∃ s', Toadb.getVFec s t .group = ((t, .group), s') ∧ Linked s' (ts ++ [t]) ∧
      OthersKept t s s' ∧ s'.disk = s.disk := by
  have hhead : s.vfhead t = some (t, .main) := by rw [h.head, if_pos (.inr rfl)]
  let s₀ : StorageManager T := { s with pfh := Function.update s.pfh (t, .group) none }
  refine ⟨addFileInfoToSmgrContext s₀ t (t, .group), by
    rw [Toadb.getVFec, h.findVF_group], ?_, ?_, ?_⟩
  · have hring : s₀.ring ≠ [] := by
      rw [show s₀.ring = s.ring from rfl, h.ring]
      simp
    have hlink : linkVF s₀ t (t, .group)
        = { s₀ with ring := addDListNext s.ring (t, .main) (t, .group) } := by
      rw [linkVF, if_neg hring, show s₀.vfhead t = some (t, .main) from hhead]
    refine Linked.congr (s := linkVF s₀ t (t, .group))
      ⟨?_, ?_, fun t' => ?_⟩ (addFile_ring ..)
      (addFile_vfhead ..)
    · exact List.nodup_append.mpr ⟨h.nodup, List.nodup_singleton t, by
        rintro a ha b hb rfl
        exact h.notMem (List.mem_singleton.mp hb ▸ ha)⟩
    · rw [hlink, ← addDListNext_forks h.notMem, ← h.ring]
    · rw [hlink]
      show s.vfhead t' = _
      rw [h.head]
      simp
  · exact (othersKept_close t s (t, .group) s.fileOpenedNum).trans (othersKept_addFile s₀ t _)
  · exact addFile_disk ..

/-! ## Calls on a linked table -/

/-- A call that leaves the links and the files. -/
structure FilesKept (t : T) (s s' : StorageManager T) : Prop extends OthersKept t s s' where
  disk_eq : s'.disk = s.disk
  ring : s'.ring = s.ring
  vfhead : s'.vfhead = s.vfhead
  isDirty : s'.isDirty = s.isDirty

omit [DecidableEq T] in
theorem FilesKept.refl (t : T) (s : StorageManager T) : FilesKept t s s :=
  ⟨.refl t s, rfl, rfl, rfl, rfl⟩

theorem filesKept_open (s : StorageManager T) (forkNum : ForkType)
    (hfile : (s.disk (t, forkNum)).isSome = true) :
    FilesKept t s (addFileToSmgrContext s (t, forkNum) (some (t, forkNum))) :=
  ⟨othersKept_open s forkNum hfile, rfl, rfl, rfl, rfl⟩

/-- Opening a descriptor that is in the ring. -/
theorem Linked.smgrOpen (h : Linked s ts) (hh : HandlesOk s) (ht : t ∈ ts)
    {forkNum : ForkType} (hfile : (s.disk (t, forkNum)).isSome = true) :
    ∃ s', Toadb.smgrOpen s t forkNum = (some (t, forkNum), s') ∧ FilesKept t s s' ∧
      s'.pfh (t, forkNum) = some (t, forkNum) := by
  rw [Toadb.smgrOpen, h.getVFec ht]
  dsimp only
  split
  · rename_i hopen
    obtain ⟨name, hname⟩ := Option.ne_none_iff_exists'.mp hopen
    obtain ⟨rfl, -⟩ := hh _ _ hname
    exact ⟨s, rfl, .refl t s, hname⟩
  · exact ⟨_, rfl, filesKept_open s forkNum hfile, by simp [addFileToSmgrContext]⟩

/-- `TableRead` reads the table's own file. -/
theorem Linked.tableRead (h : Linked s ts) (hh : HandlesOk s) (ht : t ∈ ts)
    {forkNum : ForkType} (hfile : (s.disk (t, forkNum)).isSome = true) (pageno : Nat) :
    ∃ s', Toadb.tableRead s t forkNum pageno
      = ((s.disk (t, forkNum)).bind (fun file => file.read pageno), s') ∧
        FilesKept t s s' := by
  rw [Toadb.tableRead, h.findVF ht]
  cases hpfh : s.pfh (t, forkNum) with
  | none =>
    obtain ⟨s', hopen, hkept, hpfh'⟩ := h.smgrOpen hh ht hfile
    refine ⟨s', ?_, hkept⟩
    simp only [Option.filter, hpfh, Option.isSome_none, Bool.false_eq_true, if_false, hopen]
    rw [fileReadPage, hpfh', Option.bind_some, hkept.disk_eq]
  | some name =>
    obtain ⟨rfl, -⟩ := hh _ _ hpfh
    refine ⟨s, ?_, .refl t s⟩
    simp only [Option.filter, hpfh, Option.isSome_some, if_true,
      fileReadPage, Option.bind_some]

/-- `TableWrite` writes through the handle as it is. -/
theorem Linked.tableWrite (h : Linked s ts) (ht : t ∈ ts)
    (forkNum : ForkType) (page : PageImage)
    (accepted : Bool) : Toadb.tableWrite s t forkNum page accepted
      = fileWritePage s (s.pfh (t, forkNum)) page accepted := by
  rw [Toadb.tableWrite, h.findVF ht]

/-- What a write does to the files. -/
theorem fileWritePage_eq (hh : HandlesOk s) (vf : VFVec T)
    (page : PageImage) (accepted : Bool) :
    ((fileWritePage s (s.pfh vf) page accepted).1 = true ↔
      (s.pfh vf).isSome = true ∧ accepted = true) ∧
    ((fileWritePage s (s.pfh vf) page accepted).1 = false →
      (fileWritePage s (s.pfh vf) page accepted).2 = s) ∧
    ((fileWritePage s (s.pfh vf) page accepted).1 = true → ∃ file, s.disk vf = some file ∧
      (fileWritePage s (s.pfh vf) page accepted).2
        = { s with disk := Function.update s.disk vf (some (file.write page)) }) := by
  cases hpfh : s.pfh vf with
  | none => simp [fileWritePage]
  | some name =>
    obtain ⟨rfl, hfile⟩ := hh _ _ hpfh
    obtain ⟨file, hfile⟩ := Option.isSome_iff_exists.mp hfile
    cases accepted <;> simp [fileWritePage, hfile]

/-- A file of the table is there. -/
theorem othersKept_file (s : StorageManager T) {vf : VFVec T}
    (hvf : vf.1 = t) (file : OsFile) :
    OthersKept t s { s with disk := Function.update s.disk vf (some file) } where
  handles := fun h vf' name hpfh => by
    obtain ⟨hname, hfile⟩ := h vf' name hpfh
    refine ⟨hname, ?_⟩
    by_cases heq : vf' = vf
    · simp [heq]
    · simpa [heq] using hfile
  disk := fun vf' hvf' => by
    have hne : vf' ≠ vf := fun heq => hvf' (by rw [heq, hvf])
    simp [hne]
  files := fun vf' hfile => by
    by_cases heq : vf' = vf
    · simp [heq]
    · simpa [heq] using hfile
  pfh := fun _ _ => .inl rfl
  tblList := rfl

theorem othersKept_write (hh : HandlesOk s) (forkNum : ForkType) (page : PageImage)
    (accepted : Bool) :
    OthersKept t s (fileWritePage s (s.pfh (t, forkNum)) page accepted).2 ∧
    (fileWritePage s (s.pfh (t, forkNum)) page accepted).2.ring = s.ring ∧
    (fileWritePage s (s.pfh (t, forkNum)) page accepted).2.vfhead = s.vfhead := by
  obtain ⟨-, hfail, hdone⟩ := fileWritePage_eq hh (t, forkNum) page accepted
  cases hret : (fileWritePage s (s.pfh (t, forkNum)) page accepted).1 with
  | false => rw [hfail hret]; exact ⟨.refl t s, rfl, rfl⟩
  | true =>
    obtain ⟨file, -, hs⟩ := hdone hret
    rw [hs]
    exact ⟨@othersKept_file T _ t s (t, forkNum) rfl _, rfl, rfl⟩

/-! ## Tables that come and tables that are given up -/

theorem othersKept_smgrRelease (s : StorageManager T) (t : T) :
    OthersKept t s (smgrRelease s t) :=
  ((othersKept_smgrClose t s _).trans (othersKept_smgrClose t _ _)).trans
    (othersKept_links t _ _ _)

@[simp] theorem smgrRelease_disk (s : StorageManager T) (t : T) :
    (smgrRelease s t).disk = s.disk := by
  simp [smgrRelease]

/-- The ring a table is taken out of, when its descriptors are the last ones. -/
theorem smgrRelease_linked (hnodup : ts.Nodup) (ht : t ∉ ts) (own : List (VFVec T))
    (hown : ∀ vf ∈ own, vf.1 = t) (hring : s.ring = ts.flatMap forks ++ (t, .main) :: own)
    (hhead : ∀ t', s.vfhead t' = if t' ∈ ts ∨ t' = t then some (t', .main) else none) :
    Linked (smgrRelease s t) ts := by
  refine ⟨hnodup, ?_, fun t' => ?_⟩
  · show (if s.ring.head? = s.vfhead t then [] else s.ring.filter (·.1 ≠ t)) = _
    have hfilter : s.ring.filter (·.1 ≠ t) = ts.flatMap forks := by
      have hnone : ((t, ForkType.main) :: own).filter (·.1 ≠ t) = [] := by
        rw [List.filter_eq_nil_iff]
        intro vf hvf
        rcases List.mem_cons.mp hvf with rfl | hvf
        · simp
        · simp [hown vf hvf]
      rw [hring, List.filter_append, filter_forks ht, hnone, List.append_nil]
    have hown' : s.vfhead t = some (t, .main) := by rw [hhead, if_pos (.inr rfl)]
    rw [hfilter, hown', hring]
    cases ts with
    | nil => simp
    | cons a ts =>
      rw [List.mem_cons, not_or] at ht
      simp [forks, Ne.symm ht.1]
  · show Function.update s.vfhead t none t' = _
    by_cases ht' : t' = t
    · subst ht'
      simp [ht]
    · simp [ht', hhead]

theorem HalfLinked.smgrRelease (h : HalfLinked s ts t) : Linked (smgrRelease s t) ts :=
  smgrRelease_linked h.nodup h.notMem [] (by simp) h.ring h.head

theorem Linked.smgrRelease (h : Linked s (ts ++ [t])) (ht : t ∉ ts) :
    Linked (Toadb.smgrRelease s t) ts := by
  refine smgrRelease_linked (List.nodup_append.mp h.nodup).1 ht [(t, .group)] (by simp) ?_
    fun t' => ?_
  · rw [h.ring]
    simp [forks]
  · rw [h.head]
    simp

/-- `smgr_create` after its descriptor was found. -/
theorem smgrCreate_kept {s₁ : StorageManager T} {forkNum : ForkType}
    (hv : getVFec s t forkNum = ((t, forkNum), s₁)) :
    OthersKept t s₁ (smgrCreate s t forkNum).2 ∧ (smgrCreate s t forkNum).2.ring = s₁.ring ∧
      (smgrCreate s t forkNum).2.vfhead = s₁.vfhead ∧
      ((smgrCreate s t forkNum).1.isSome = true →
        ((smgrCreate s t forkNum).2.disk (t, forkNum)).isSome = true) := by
  rw [smgrCreate, hv]
  dsimp only
  split
  · exact ⟨.refl t s₁, rfl, rfl, by simp⟩
  · split
    · rename_i hexists
      exact ⟨othersKept_close t s₁ _ _, rfl, rfl, fun _ => hexists⟩
    · let s₂ : StorageManager T :=
        { s₁ with disk := Function.update s₁.disk (t, forkNum) (some OsFile.empty) }
      have hfile : (s₂.disk (t, forkNum)).isSome = true := by simp [s₂]
      exact ⟨(@othersKept_file T _ t s₁ (t, forkNum) rfl _).trans
        (othersKept_open s₂ forkNum hfile), rfl, rfl,
        fun _ => hfile⟩

/-- `smgr_open` after its descriptor was found. -/
theorem smgrOpen_kept {s₁ : StorageManager T} {forkNum : ForkType}
    (hv : getVFec s t forkNum = ((t, forkNum), s₁)) :
    OthersKept t s₁ (smgrOpen s t forkNum).2 ∧ (smgrOpen s t forkNum).2.ring = s₁.ring ∧
      (smgrOpen s t forkNum).2.vfhead = s₁.vfhead ∧ (smgrOpen s t forkNum).2.disk = s₁.disk ∧
      ∀ vpos, (smgrOpen s t forkNum).1 = some vpos → vpos = (t, forkNum) := by
  rw [smgrOpen, hv]
  dsimp only
  split
  · exact ⟨.refl t s₁, rfl, rfl, rfl, fun _ h => (Option.some.inj h).symm⟩
  · split
    · rename_i hfile
      exact ⟨othersKept_open s₁ forkNum hfile, rfl, rfl, rfl,
        fun _ h => (Option.some.inj h).symm⟩
    · exact ⟨.refl t s₁, rfl, rfl, rfl, fun _ h => by cases h⟩

/-- `TableFileInit` on a linked table. -/
theorem Linked.tableFileInit (h : Linked s ts) (hh : HandlesOk s) (ht : t ∈ ts)
    (hfile : ∀ forkNum, (s.disk (t, forkNum)).isSome = true) (tblDef : TableMetaInfo) :
    OthersKept t s (tableFileInit s t tblDef).2 ∧ Linked (tableFileInit s t tblDef).2 ts := by
  obtain ⟨hkept₁, hring₁, hhead₁⟩ :=
    othersKept_write (t := t) hh .main ⟨pageHeadPageNum, tblDef.mainBody⟩ tblDef.acceptMain
  rw [← h.tableWrite ht] at hkept₁ hring₁ hhead₁
  have hlinked₁ := h.congr hring₁ hhead₁
  unfold Toadb.tableFileInit
  generalize Toadb.tableWrite s t .main ⟨pageHeadPageNum, tblDef.mainBody⟩ tblDef.acceptMain =
    w
    at hkept₁ hlinked₁
  obtain ⟨ret, s₁⟩ := w
  have hh₁ := hkept₁.handles hh
  obtain ⟨s₂, hopen, hkept₂, -⟩ := hlinked₁.smgrOpen hh₁ ht (hkept₁.files _ (hfile .main))
  have hlinked₂ := hlinked₁.congr hkept₂.ring hkept₂.vfhead
  have hkept₂' := hkept₁.trans hkept₂.toOthersKept
  obtain ⟨s₃, hread, hkept₃⟩ := hlinked₂.tableRead (hkept₂'.handles hh) ht
    (hkept₂'.files _ (hfile .main)) pageHeadPageNum
  have hlinked₃ := hlinked₂.congr hkept₃.ring hkept₃.vfhead
  have hkept₃' := hkept₂'.trans hkept₃.toOthersKept
  simp only [hopen, hread]
  split
  · rename_i heq
    obtain ⟨-, rfl⟩ := Prod.mk.inj heq
    exact ⟨hkept₃', hlinked₃⟩
  · rename_i heq
    obtain ⟨-, rfl⟩ := Prod.mk.inj heq
    obtain ⟨hkept₄, hring₄, hhead₄⟩ := othersKept_write (t := t) (hkept₃'.handles hh) .group
      ⟨pageHeadPageNum, tblDef.groupBody⟩ tblDef.acceptGroup
    rw [← hlinked₃.tableWrite ht] at hkept₄ hring₄ hhead₄
    exact ⟨hkept₃'.trans hkept₄, hlinked₃.congr hring₄ hhead₄⟩

omit [DecidableEq T] in
/-- A page that was read is on the descriptor's own file. -/
theorem HandlesOk.file_of_read (hh : HandlesOk s) {vf : VFVec T}
    {pageno : Nat} {page : PageImage}
    (hread : fileReadPage s (s.pfh vf) pageno = some page) : (s.disk vf).isSome = true := by
  cases hpfh : s.pfh vf with
  | none =>
    rw [hpfh] at hread
    cases hread
  | some name => exact (hh _ _ hpfh).2

theorem HalfLinked.getVFec_main (h : HalfLinked s ts t) :
    Toadb.getVFec s t .main = ((t, .main), s) ∧
      findVF s (s.vfhead t) .main = some (t, .main) := by
  have hfind : findVF s (s.vfhead t) .main = some (t, .main) := by
    rw [findVF, h.head, if_pos (.inr rfl), Option.bind_some]
    simp
  exact ⟨by rw [Toadb.getVFec, hfind], hfind⟩

/-- `TableRead` of the first fork, while the second has no descriptor. -/
theorem HalfLinked.tableRead_main (h : HalfLinked s ts t) (hh : HandlesOk s) (pageno : Nat) :
    FilesKept t s (tableRead s t .main pageno).2 ∧
      ((tableRead s t .main pageno).1.isSome = true → (s.disk (t, .main)).isSome = true) := by
  obtain ⟨hv, hfind⟩ := h.getVFec_main
  rw [Toadb.tableRead, hfind]
  cases hpfh : s.pfh (t, .main) with
  | some name =>
    simp only [Option.filter, hpfh, Option.isSome_some, if_true]
    exact ⟨.refl t s, fun _ => (hh _ _ hpfh).2⟩
  | none =>
    simp only [Option.filter, hpfh, Option.isSome_none, Bool.false_eq_true,
      if_false, smgrOpen, hv,
      ne_eq, not_true_eq_false]
    by_cases hfile : (s.disk (t, .main)).isSome = true
    · simp only [hfile, if_true]
      exact ⟨filesKept_open s .main hfile, fun _ => trivial⟩
    · simp only [hfile]
      exact ⟨.refl t s, by simp⟩

/-- `TableRead` of the second fork gives it a descriptor. -/
theorem HalfLinked.tableRead_group (h : HalfLinked s ts t) (hh : HandlesOk s) (pageno : Nat) :
    OthersKept t s (tableRead s t .group pageno).2 ∧
      (tableRead s t .group pageno).2.disk = s.disk ∧
      Linked (tableRead s t .group pageno).2 (ts ++ [t]) ∧
      ((tableRead s t .group pageno).1.isSome = true →
        (s.disk (t, .group)).isSome = true) := by
  obtain ⟨s₁, hv, hlinked₁, hkept₁, hdisk₁⟩ := h.getVFec_group
  obtain ⟨hkept₂, hring₂, hhead₂, hdisk₂, hvpos⟩ := smgrOpen_kept hv
  have hlinked₂ := hlinked₁.congr hring₂ hhead₂
  have hkept₂ := hkept₁.trans hkept₂
  rw [Toadb.tableRead, h.findVF_group]
  dsimp only [Option.filter]
  generalize smgrOpen s t .group = w at hkept₂ hlinked₂ hdisk₂ hvpos
  obtain ⟨found, u⟩ := w
  cases found with
  | none => exact ⟨hkept₂, hdisk₂.trans hdisk₁, hlinked₂, by simp⟩
  | some vpos =>
    obtain rfl := hvpos vpos rfl
    refine ⟨hkept₂, hdisk₂.trans hdisk₁, hlinked₂, fun hsome => ?_⟩
    obtain ⟨page, hpage⟩ := Option.isSome_iff_exists.mp hsome
    have hfile := (hkept₂.handles hh).file_of_read hpage
    rwa [show u.disk = s.disk from hdisk₂.trans hdisk₁] at hfile

/-! ## Creating and opening a table -/

/-- How making a table known ends: the table is given up, or it is added. -/
def TableKnown (ts : List T) (t : T) (s s' : StorageManager T) : Prop :=
  ∃ u, OthersKept t s u ∧ (s' = u ∧ Linked u ts ∨
    s' = { u with tblList := t :: u.tblList } ∧ Linked u (ts ++ [t]) ∧
      ∀ forkNum, (u.disk (t, forkNum)).isSome = true)

theorem TableKnown.released {u : StorageManager T} (hkept : OthersKept t s u)
    (hlinked : Linked (smgrRelease u t) ts) : TableKnown ts t s (smgrRelease u t) :=
  ⟨_, hkept.trans (othersKept_smgrRelease u t), .inl ⟨rfl, hlinked⟩⟩

/-- `CreateTblInfo` behind its first descriptor. -/
theorem HalfLinked.createTblInfo {s₁ : StorageManager T}
    (hv₁ : Toadb.getVFec s t .main = ((t, .main), s₁)) (hhalf₁ : HalfLinked s₁ ts t)
    (hh₁ : HandlesOk s₁) (tblDef : TableMetaInfo) :
    TableKnown ts t s₁ (createTblInfo s t tblDef) := by
  obtain ⟨hkept₂, hring₂, hhead₂, hmain⟩ := smgrCreate_kept hv₁
  have hhalf₂ := hhalf₁.congr hring₂ hhead₂
  unfold Toadb.createTblInfo
  generalize smgrCreate s t .main = w at hkept₂ hhalf₂ hmain
  obtain ⟨found, s₂⟩ := w
  cases found with
  | none => exact .released hkept₂ hhalf₂.smgrRelease
  | some vpos =>
    obtain ⟨s₃, hv₃, hlinked₃, hkept₃, hdisk₃⟩ := hhalf₂.getVFec_group
    obtain ⟨hkept₄, hring₄, hhead₄, hgroup⟩ := smgrCreate_kept hv₃
    have hkept₄' := (hkept₂.trans hkept₃).trans hkept₄
    have hlinked₄ := hlinked₃.congr hring₄ hhead₄
    dsimp only at hkept₄' hlinked₄ hkept₄ hgroup ⊢
    generalize smgrCreate s₂ t .group = w at hkept₄' hlinked₄ hkept₄ hgroup
    obtain ⟨found, s₄⟩ := w
    cases found with
    | none => exact .released hkept₄' (hlinked₄.smgrRelease hhalf₁.notMem)
    | some vpos' =>
      have hfile : ∀ forkNum, (s₄.disk (t, forkNum)).isSome = true := by
        intro forkNum
        cases forkNum with
        | main => exact hkept₄.files _ (hdisk₃ ▸ hmain rfl)
        | group => exact hgroup rfl
      obtain ⟨hkept₅, hlinked₅⟩ := hlinked₄.tableFileInit (hkept₄'.handles hh₁)
        (List.mem_append_right _ (List.mem_singleton_self t)) hfile tblDef
      have hkept₅' := hkept₄'.trans hkept₅
      dsimp only at hkept₅' hlinked₅ hkept₅ ⊢
      generalize Toadb.tableFileInit s₄ t tblDef = w at hkept₅' hlinked₅ hkept₅
      obtain ⟨ret, s₅⟩ := w
      cases ret with
      | false => exact .released hkept₅' (hlinked₅.smgrRelease hhalf₁.notMem)
      | true =>
        exact ⟨s₅, hkept₅',
          .inr ⟨rfl, hlinked₅, fun forkNum => hkept₅.files _ (hfile forkNum)⟩⟩

/-- `LoadTblInfo` behind its first descriptor; it writes nothing. -/
theorem HalfLinked.loadTblInfo {s₁ : StorageManager T}
    (hv₁ : Toadb.getVFec s t .main = ((t, .main), s₁)) (hhalf₁ : HalfLinked s₁ ts t)
    (hh₁ : HandlesOk s₁) :
    TableKnown ts t s₁ (loadTblInfo s t) ∧ (loadTblInfo s t).disk = s₁.disk := by
  obtain ⟨hkept₂, hring₂, hhead₂, hdisk₂, -⟩ := smgrOpen_kept hv₁
  have hhalf₂ := hhalf₁.congr hring₂ hhead₂
  unfold Toadb.loadTblInfo
  generalize smgrOpen s t .main = w at hkept₂ hhalf₂ hdisk₂
  obtain ⟨found, s₂⟩ := w
  cases found with
  | none => exact ⟨.released hkept₂ hhalf₂.smgrRelease, (smgrRelease_disk ..).trans hdisk₂⟩
  | some vpos =>
    obtain ⟨hkept₃, hmain⟩ := hhalf₂.tableRead_main (hkept₂.handles hh₁) pageHeadPageNum
    have hhalf₃ := hhalf₂.congr hkept₃.ring hkept₃.vfhead
    have hdisk₃ := hkept₃.disk_eq.trans hdisk₂
    have hkept₃' := hkept₂.trans hkept₃.toOthersKept
    dsimp only at hmain hhalf₃ hdisk₃ hkept₃' ⊢
    generalize Toadb.tableRead s₂ t .main pageHeadPageNum = w at hmain hhalf₃ hdisk₃ hkept₃'
    obtain ⟨found, s₃⟩ := w
    cases found with
    | none => exact ⟨.released hkept₃' hhalf₃.smgrRelease, (smgrRelease_disk ..).trans hdisk₃⟩
    | some page =>
      obtain ⟨hkept₄, hdisk₄, hlinked₄, hgroup⟩ :=
        hhalf₃.tableRead_group (hkept₃'.handles hh₁) pageHeadPageNum
      have hkept₄' := hkept₃'.trans hkept₄
      have hdisk₄' := hdisk₄.trans hdisk₃
      dsimp only at hgroup hdisk₄' hkept₄' hlinked₄ ⊢
      generalize Toadb.tableRead s₃ t .group pageHeadPageNum = w
        at hgroup hdisk₄' hkept₄' hlinked₄
      obtain ⟨found, s₄⟩ := w
      cases found with
      | none =>
        exact ⟨.released hkept₄' (hlinked₄.smgrRelease hhalf₁.notMem),
          (smgrRelease_disk ..).trans hdisk₄'⟩
      | some page' =>
        refine ⟨⟨s₄, hkept₄', .inr ⟨rfl, hlinked₄, fun forkNum => ?_⟩⟩, hdisk₄'⟩
        rw [show s₄.disk = s₁.disk from hdisk₄']
        cases forkNum with
        | main => exact hdisk₂ ▸ hmain rfl
        | group => exact hdisk₃ ▸ hgroup rfl

/-! ## The invariant -/

/-- The tables of the dictionary are linked and have their files. -/
structure SmgrOk (s : StorageManager T) : Prop where
  linked : ∃ ts, Linked s ts ∧ ∀ t, t ∈ ts ↔ t ∈ s.tblList
  handles : HandlesOk s
  files : ∀ t ∈ s.tblList, ∀ forkNum, (s.disk (t, forkNum)).isSome = true

/-- What a call for table `t` does to the other tables. -/
structure TableCall (t : T) (s s' : StorageManager T) : Prop where
  ok : SmgrOk s'
  disk : ∀ vf, vf.1 ≠ t → s'.disk vf = s.disk vf
  tblList : ∀ t' ∈ s.tblList, t' ∈ s'.tblList

theorem SmgrOk.tableKnown {s₁ : StorageManager T} (h : SmgrOk s)
    (hts : ∀ t, t ∈ ts ↔ t ∈ s.tblList) (hkept₁ : OthersKept t s s₁)
    (hknown : TableKnown ts t s₁ s') : TableCall t s s' := by
  obtain ⟨u, hkept, hend⟩ := hknown
  have hkept := hkept₁.trans hkept
  have hfiles : ∀ t' ∈ u.tblList, ∀ forkNum, (u.disk (t', forkNum)).isSome = true :=
    fun t' ht' forkNum => hkept.files _ (h.files t' (hkept.tblList ▸ ht') forkNum)
  rcases hend with ⟨rfl, hlinked⟩ | ⟨rfl, hlinked, hown⟩
  · refine ⟨⟨⟨ts, hlinked, fun t' => ?_⟩, hkept.handles h.handles, hfiles⟩, hkept.disk,
      fun t' ht' => by rwa [hkept.tblList]⟩
    rw [hkept.tblList]
    exact hts t'
  · refine ⟨⟨⟨ts ++ [t], ⟨hlinked.nodup, hlinked.ring, hlinked.head⟩, fun t' => ?_⟩,
      hkept.handles h.handles, fun t' ht' forkNum => ?_⟩, hkept.disk, fun t' ht' => ?_⟩
    · show t' ∈ ts ++ [t] ↔ t' ∈ t :: u.tblList
      rw [hkept.tblList, List.mem_append, List.mem_singleton, List.mem_cons, hts, or_comm]
    · rcases List.mem_cons.mp ht' with rfl | ht'
      · exact hown forkNum
      · exact hfiles t' ht' forkNum
    · exact List.mem_cons_of_mem _ (by rwa [hkept.tblList])

theorem SmgrOk.createTblInfo (h : SmgrOk s) (ht : t ∉ s.tblList) (tblDef : TableMetaInfo) :
    TableCall t s (createTblInfo s t tblDef) := by
  obtain ⟨ts, hlinked, hts⟩ := h.linked
  obtain ⟨s₁, hv₁, hhalf₁, hkept₁, -⟩ := hlinked.getVFec_main fun hmem => ht ((hts t).mp hmem)
  exact h.tableKnown hts hkept₁ (hhalf₁.createTblInfo hv₁ (hkept₁.handles h.handles) tblDef)

theorem SmgrOk.loadTblInfo (h : SmgrOk s) (ht : t ∉ s.tblList) :
    TableCall t s (loadTblInfo s t) := by
  obtain ⟨ts, hlinked, hts⟩ := h.linked
  obtain ⟨s₁, hv₁, hhalf₁, hkept₁, -⟩ := hlinked.getVFec_main fun hmem => ht ((hts t).mp hmem)
  exact h.tableKnown hts hkept₁ (hhalf₁.loadTblInfo hv₁ (hkept₁.handles h.handles)).1

/-- A call on a known table that leaves its links. -/
theorem SmgrOk.kept (h : SmgrOk s) (hkept : OthersKept t s s') (hring : s'.ring = s.ring)
    (hhead : s'.vfhead = s.vfhead) : TableCall t s s' := by
  obtain ⟨ts, hlinked, hts⟩ := h.linked
  refine ⟨⟨⟨ts, hlinked.congr hring hhead, fun t' => ?_⟩, hkept.handles h.handles,
    fun t' ht' forkNum => hkept.files _ (h.files t' (hkept.tblList ▸ ht') forkNum)⟩,
      hkept.disk,
    fun t' ht' => by rwa [hkept.tblList]⟩
  rw [hkept.tblList]
  exact hts t'

theorem SmgrOk.tableRead (h : SmgrOk s) (ht : t ∈ s.tblList) (forkNum : ForkType)
    (pageno : Nat) : ∃ s', tableRead s t forkNum pageno
      = ((s.disk (t, forkNum)).bind (fun file => file.read pageno), s') ∧
        FilesKept t s s' := by
  obtain ⟨ts, hlinked, hts⟩ := h.linked
  exact hlinked.tableRead h.handles ((hts t).mpr ht) (h.files t ht forkNum) pageno

theorem SmgrOk.tableWrite (h : SmgrOk s) (ht : t ∈ s.tblList) (forkNum : ForkType)
    (page : PageImage) (accepted : Bool) : tableWrite s t forkNum page accepted
      = fileWritePage s (s.pfh (t, forkNum)) page accepted := by
  obtain ⟨ts, hlinked, hts⟩ := h.linked
  exact hlinked.tableWrite ((hts t).mpr ht) forkNum page accepted

theorem SmgrOk.write_kept (h : SmgrOk s) (ht : t ∈ s.tblList) (forkNum : ForkType)
    (page : PageImage) (accepted : Bool) :
    TableCall t s (Toadb.tableWrite s t forkNum page accepted).2 := by
  rw [h.tableWrite ht]
  obtain ⟨hkept, hring, hhead⟩ := othersKept_write (t := t) h.handles forkNum page accepted
  exact h.kept hkept hring hhead

/-- Dirty flags are not part of the invariant. -/
theorem TableCall.setDirty (h : TableCall t s s') (flags : VFVec T → Nat → Bool) :
    TableCall t s { s' with isDirty := flags } := by
  obtain ⟨⟨⟨ts, hlinked, hts⟩, hhandles, hfiles⟩, hdisk, htbl⟩ := h
  exact ⟨⟨⟨ts, ⟨hlinked.nodup, hlinked.ring, hlinked.head⟩, hts⟩, hhandles, hfiles⟩,
    hdisk, htbl⟩

/-- The table a call is for. -/
def SmgrCall.table : SmgrCall T → T
  | .create t _ => t
  | .openTable t => t
  | .read t _ _ => t
  | .write t _ _ _ => t
  | .writePage t _ _ _ => t

/-- Every call keeps the invariant. -/
theorem SmgrOk.step {a : SmgrCall T} (h : SmgrOk s) (hstep : smgrStep s a = some s') :
    TableCall a.table s s' := by
  have hrefl : ∀ t, TableCall t s s := fun t => ⟨h, fun _ _ => rfl, fun _ ht => ht⟩
  cases a with
  | create t tblDef =>
    rw [smgrStep, Option.some.injEq] at hstep
    subst hstep
    split
    · exact hrefl t
    · exact h.createTblInfo ‹_› tblDef
  | openTable t =>
    rw [smgrStep, Option.some.injEq] at hstep
    subst hstep
    split
    · exact hrefl t
    · exact h.loadTblInfo ‹_›
  | read t forkNum pageno =>
    rw [smgrStep, Option.ite_none_right_eq_some, Option.some.injEq] at hstep
    obtain ⟨ht, rfl⟩ := hstep
    obtain ⟨s₁, hread, hkept⟩ := h.tableRead ht forkNum pageno
    rw [hread]
    exact h.kept hkept.toOthersKept hkept.ring hkept.vfhead
  | write t forkNum page accepted =>
    rw [smgrStep, Option.ite_none_right_eq_some, Option.some.injEq] at hstep
    obtain ⟨ht, rfl⟩ := hstep
    exact h.write_kept ht forkNum page.1 accepted
  | writePage t forkNum page accepted =>
    rw [smgrStep, Option.ite_none_right_eq_some, Option.some.injEq] at hstep
    obtain ⟨ht, rfl⟩ := hstep
    exact (h.write_kept ht forkNum page.1 accepted).setDirty _

theorem smgrOk_init (disk : VFVec T → Option OsFile) : SmgrOk (initSmgr disk) where
  linked := ⟨[], ⟨List.nodup_nil, rfl, fun _ => rfl⟩, fun _ => Iff.rfl⟩
  handles := fun _ _ h => by cases h
  files := fun _ h => by cases h

end Toadb
