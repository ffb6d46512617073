/-
Toadb.Buffer.ResourceOwnerTheorems — what is released at the end of a command.

`releaseAllResourceOwner_returns` solves the drain. A round pops a record and releases its
page, and `ReleasePage` takes a record of that page away too: of two records of a page one
round is made. So a page that was recorded `k` times is released `(k + 1) / 2` times, and
every pin comes back exactly when no page was recorded twice (`releaseAll_pins_iff`).

`OwnerInv` is the invariant: a worker has got every page it has recorded, and a page is
pinned at least once for each worker that has got it.
-/
import Toadb.Buffer.ResourceOwner
import Toadb.Lib.Cursor
import Toadb.Lib.Transition
import Mathlib.Algebra.Order.BigOperators.Group.Finset

namespace Toadb

open Cursor Transition

variable {N m : Nat} {pool : ResourceOnwerPool N} {s t : OwnerSys N m}
  {w : Fin m} {id : Fin N}

/-! ## Records -/

/-- The number of records is known, and all of them are of pages. -/
structure ResourceOnwerPool.Ok (pool : ResourceOnwerPool N) : Prop where
  num : pool.onwerResourceNum = pool.header.length
  type : ∀ node ∈ pool.header, node.type = 1

theorem ResourceOnwerPool.Ok.push (h : pool.Ok) (id : Fin N) :
    (pushResourceOwner pool id 1).Ok := by
  have hnode : (getResourceOwnerNode pool).header = pool.header ∧
      (getResourceOwnerNode pool).onwerResourceNum = pool.onwerResourceNum := by
    unfold getResourceOwnerNode
    split <;> exact ⟨rfl, rfl⟩
  constructor
  · simp [pushResourceOwner, hnode.1, hnode.2, h.num]
  · intro node hnode'
    simp only [pushResourceOwner, hnode.1, List.mem_append, List.mem_singleton] at hnode'
    obtain hold | rfl := hnode'
    · exact h.type node hold
    · rfl

theorem header_pushResourceOwner (pool : ResourceOnwerPool N) (id : Fin N) :
    (pushResourceOwner pool id 1).header = pool.header ++ [⟨1, id⟩] := by
  simp only [pushResourceOwner, getResourceOwnerNode]
  split <;> rfl

/-- The first record of the buffer goes, if there is one. -/
theorem ResourceOnwerPool.Ok.header_release (h : pool.Ok) (id : Fin N) :
    (releaseResourceOwner pool id 1).header = pool.header.erase ⟨1, id⟩ := by
  unfold releaseResourceOwner
  split
  · rename_i hnum
    have hnil : pool.header = [] := by
      rw [h.num] at hnum
      exact List.length_eq_zero_iff.mp (Int.ofNat_eq_zero.mp hnum)
    rw [hnil, List.erase_nil]
  · split
    · rfl
    · rename_i hmem
      exact (List.erase_of_not_mem hmem).symm

theorem ResourceOnwerPool.Ok.release (h : pool.Ok) (id : Fin N) :
    (releaseResourceOwner pool id 1).Ok := by
  have hheader := h.header_release id
  constructor
  · rw [hheader]
    by_cases hmem : (⟨1, id⟩ : BufferResource N) ∈ pool.header
    · have hpos := List.length_pos_of_mem hmem
      have hnum : pool.onwerResourceNum ≠ 0 := by rw [h.num]; omega
      rw [releaseResourceOwner, if_neg hnum, if_pos hmem, List.length_erase_of_mem hmem]
      simp only [h.num]
      omega
    · rw [List.erase_of_not_mem hmem, releaseResourceOwner, if_neg hmem, ite_self, h.num]
  · intro node hnode
    rw [hheader] at hnode
    exact h.type node (List.mem_of_mem_erase hnode)

/-- The first record is popped, as long as there is one. -/
theorem ResourceOnwerPool.Ok.pop_nil (h : pool.Ok) (hnil : pool.header = []) :
    (popResourceOwner pool).1 = none := by
  rw [popResourceOwner, if_pos (by rw [h.num, hnil]; rfl)]

theorem ResourceOnwerPool.Ok.pop_cons (h : pool.Ok) {node : BufferResource N}
    {rest : List (BufferResource N)} (hcons : pool.header = node :: rest) :
    ∃ pool', popResourceOwner pool = (some node.buffer, pool') ∧
      pool'.header = rest ∧ pool'.Ok := by
  have hnum : pool.onwerResourceNum ≠ 0 := by
    rw [h.num, hcons, List.length_cons]
    omega
  refine ⟨_, by rw [popResourceOwner, if_neg hnum, hcons], rfl, ?_, fun n hn => ?_⟩
  · simp [h.num, hcons]
  · exact h.type n (by rw [hcons]; exact List.mem_cons_of_mem _ hn)

/-! ## One call -/

@[simp] theorem owner_releasePage_of_ne {w' : Fin m} (h : w' ≠ w) :
    (s.releasePage w id).owner w' = s.owner w' := Function.update_of_ne h ..

@[simp] theorem pages_releasePage_of_ne {w' : Fin m} (h : w' ≠ w) :
    (s.releasePage w id).pages w' = s.pages w' := Function.update_of_ne h ..

theorem owner_releasePage :
    (s.releasePage w id).owner w = releaseResourceOwner (s.owner w) id 1 :=
  Function.update_self ..

theorem pages_releasePage : (s.releasePage w id).pages w = (s.pages w).erase id :=
  Function.update_self ..

theorem refCnt_releasePage (id' : Fin N) : ((s.releasePage w id).bufferDesc id').refCnt =
    (s.bufferDesc id').refCnt - if id' = id then 1 else 0 := by
  by_cases h : id' = id
  · subst h
    simp [OwnerSys.releasePage, OwnerSys.setOwner, BufferDesc.unPin]
  · simp [OwnerSys.releasePage, OwnerSys.setOwner, h]

theorem count_erase_page {α : Type} [DecidableEq α] (l : List α) (a b : α) :
    (l.erase a).count b = l.count b - if b = a then 1 else 0 := by
  by_cases h : b = a
  · rw [h, if_pos rfl, List.count_erase_self]
  · rw [if_neg h, List.count_erase_of_ne (by simpa using h), Nat.sub_zero]

theorem recorded_releasePage (h : (s.owner w).Ok) (id' : Fin N) :
    (s.releasePage w id).recorded w id' = s.recorded w id' - if id' = id then 1 else 0 := by
  simp only [OwnerSys.recorded, owner_releasePage, h.header_release, count_erase_page,
    BufferResource.mk.injEq, true_and]

/-! ## The drain -/

/-- What is left after `ReleaseAllResourceOwner`. -/
structure Drained (s : OwnerSys N m) (w : Fin m) (t : OwnerSys N m) : Prop where
  refCnt : ∀ id, (t.bufferDesc id).refCnt =
    (s.bufferDesc id).refCnt - (s.recorded w id + 1) / 2
  pages : ∀ id, (t.pages w).count id = (s.pages w).count id - (s.recorded w id + 1) / 2
  others : ∀ w', w' ≠ w → t.owner w' = s.owner w' ∧ t.pages w' = s.pages w'
  header : (t.owner w).header = []
  owner : (t.owner w).Ok

/-- The loop ends after one round for every record that is popped. -/
theorem releaseAllResourceOwner_drained (w : Fin m) :
    ∀ (fuel : Nat) (s : OwnerSys N m), (s.owner w).Ok →
    (s.owner w).header.length < fuel → ∃ t,
      s.releaseAllResourceOwner w fuel = some t ∧ Drained s w t := by
  intro fuel
  induction fuel with
  | zero => intro s _ hfuel; omega
  | succ fuel ih =>
    intro s hok hfuel
    rw [OwnerSys.releaseAllResourceOwner]
    cases hheader : (s.owner w).header with
    | nil =>
      have hrecorded : ∀ id, s.recorded w id = 0 := by simp [OwnerSys.recorded, hheader]
      obtain ⟨pool, hpop⟩ : ∃ pool, popResourceOwner (s.owner w) = (none, pool) :=
        ⟨_, Prod.ext (hok.pop_nil hheader) rfl⟩
      rw [hpop]
      exact ⟨s, rfl, by simp [hrecorded], by
        simp [hrecorded], fun _ _ => ⟨rfl, rfl⟩, hheader, hok⟩
    | cons node rest =>
      obtain ⟨pool, hpop, hrest, hpool⟩ := hok.pop_cons hheader
      rw [hpop]
      -- The state with the record popped.
      have howner : (s.setOwner w pool).owner w = pool := Function.update_self ..
      have hok' : ((s.setOwner w pool).owner w).Ok := by rw [howner]; exact hpool
      have htype : node.type = 1 := hok.type node (by rw [hheader]; exact List.mem_cons_self)
      have hrecorded : ∀ id, s.recorded w id =
          (s.setOwner w pool).recorded w id + if id = node.buffer then 1 else 0 := by
        intro id
        rw [OwnerSys.recorded, OwnerSys.recorded, howner, hrest, hheader, List.count_cons]
        obtain ⟨type, buffer⟩ := node
        cases htype
        have hiff : ((⟨1, buffer⟩ : BufferResource N) == ⟨1, id⟩) = true ↔ id = buffer := by
          rw [beq_iff_eq, BufferResource.mk.injEq, and_iff_right rfl, eq_comm]
        exact congrArg _ (if_congr hiff rfl rfl)
      obtain ⟨t, hrun, ht⟩ := ih ((s.setOwner w pool).releasePage w node.buffer)
        (owner_releasePage ▸ hok'.release _) (by
          have hle : (rest.erase ⟨1, node.buffer⟩).length ≤ rest.length :=
            List.erase_sublist.length_le
          rw [hheader, List.length_cons] at hfuel
          rw [owner_releasePage, hok'.header_release, howner, hrest]
          omega)
      refine ⟨t, hrun, fun id => ?_, fun id => ?_, fun w' hw' => ?_, ht.header, ht.owner⟩
      · rw [ht.refCnt, refCnt_releasePage, recorded_releasePage hok', hrecorded id]
        show (s.bufferDesc id).refCnt - _ - _ = _
        split <;> omega
      · rw [ht.pages, recorded_releasePage hok', pages_releasePage,
          count_erase_page, hrecorded id]
        show (s.pages w).count id - _ - _ = _
        split <;> omega
      · obtain ⟨hown, hpages⟩ := ht.others w' hw'
        rw [hown, hpages, owner_releasePage_of_ne hw', pages_releasePage_of_ne hw']
        exact ⟨Function.update_of_ne hw' .., rfl⟩

/-- More rounds change nothing. -/
theorem releaseAllResourceOwner_mono {fuel fuel' : Nat}
    (h : s.releaseAllResourceOwner w fuel = some t)
    (hfuel : fuel ≤ fuel') : s.releaseAllResourceOwner w fuel' = some t := by
  induction fuel generalizing s fuel' with
  | zero => cases h
  | succ fuel ih =>
    obtain ⟨more, rfl⟩ : ∃ more, fuel' = more + 1 := ⟨fuel' - 1, by omega⟩
    rw [OwnerSys.releaseAllResourceOwner] at h ⊢
    split at h
    · exact h
    · exact ih h (by omega)

/-! ## The invariant -/

/-- The pins of the other workers. -/
def OwnerSys.othersPins (s : OwnerSys N m) (w : Fin m) (id : Fin N) : Nat :=
  ∑ w' ∈ Finset.univ.erase w, (s.pages w').count id

/-- The invariant of the workers. -/
structure OwnerInv (s : OwnerSys N m) : Prop where
  owner : ∀ w, (s.owner w).Ok
  got : ∀ w id, s.recorded w id ≤ (s.pages w).count id
  pinned : ∀ id, ∑ w, (s.pages w).count id ≤ (s.bufferDesc id).refCnt

theorem total_pages (s : OwnerSys N m) (w : Fin m) (id : Fin N) :
    ∑ w', (s.pages w').count id = (s.pages w).count id + s.othersPins w id :=
  (Finset.add_sum_erase _ (fun w' => (s.pages w').count id) (Finset.mem_univ w)).symm

theorem othersPins_congr (h : ∀ w', w' ≠ w → t.pages w' = s.pages w') (id : Fin N) :
    t.othersPins w id = s.othersPins w id :=
  Finset.sum_congr rfl fun w' hw' => by rw [h w' (Finset.ne_of_mem_erase hw')]

/-- What a step of one worker has to keep. -/
theorem OwnerInv.move (h : OwnerInv s)
    (hothers : ∀ w', w' ≠ w → t.owner w' = s.owner w' ∧ t.pages w' = s.pages w')
    (howner : (t.owner w).Ok) (hgot : ∀ id, t.recorded w id ≤ (t.pages w).count id)
    (hpins : ∀ id, (t.pages w).count id + (s.bufferDesc id).refCnt ≤
      (t.bufferDesc id).refCnt + (s.pages w).count id) : OwnerInv t := by
  refine ⟨fun w' => ?_, fun w' id => ?_, fun id => ?_⟩
  · by_cases hw' : w' = w
    · exact hw' ▸ howner
    · exact (hothers w' hw').1 ▸ h.owner w'
  · by_cases hw' : w' = w
    · exact hw' ▸ hgot id
    · rw [OwnerSys.recorded, (hothers w' hw').1, (hothers w' hw').2]
      exact h.got w' id
  · have hpinned := h.pinned id
    have hmore := hpins id
    rw [total_pages s w] at hpinned
    rw [total_pages t w, othersPins_congr fun w' hw' => (hothers w' hw').2]
    omega

theorem OwnerInv.readPage (h : OwnerInv s) (w : Fin m) (page : Option (Fin N)) :
    OwnerInv (s.readPage w page) := by
  cases page with
  | none => exact h
  | some id =>
    have hpages : (s.readPage w (some id)).pages w = id :: s.pages w :=
      Function.update_self ..
    refine h.move (w := w) (fun w' hw' => ⟨rfl, Function.update_of_ne hw' ..⟩) (h.owner w)
      (fun id' => ?_) fun id' => ?_
    · rw [hpages]
      exact (h.got w id').trans (List.count_le_count_cons ..)
    · rw [hpages, List.count_cons]
      by_cases hid : id' = id
      · subst hid
        simp [OwnerSys.readPage, BufferDesc.pin]
        omega
      · simp [OwnerSys.readPage, hid, Ne.symm hid, Nat.add_comm]

theorem OwnerInv.getPageByIndex (h : OwnerInv s) (w : Fin m) (page : Option (Fin N)) :
    OwnerInv (s.getPageByIndex w page) := by
  cases page with
  | none => exact h
  | some id =>
    have hread := h.readPage w (some id)
    have howner : (s.getPageByIndex w (some id)).owner w =
        pushResourceOwner (s.owner w) id 1 :=
      Function.update_self ..
    have hpages : (s.getPageByIndex w (some id)).pages w = id :: s.pages w :=
      Function.update_self ..
    refine hread.move (w := w) (fun w' hw' => ⟨Function.update_of_ne hw' .., rfl⟩) ?_
      (fun id' => ?_) fun id' => ?_
    · rw [howner]
      exact (h.owner w).push id
    · have hgot := h.got w id'
      rw [OwnerSys.recorded] at hgot
      rw [OwnerSys.recorded, howner, header_pushResourceOwner, hpages, List.count_append,
        List.count_singleton,
        List.count_cons]
      have hiff : ((⟨1, id⟩ : BufferResource N) == ⟨1, id'⟩) = (id == id') := by
        rw [Bool.eq_iff_iff]
        simp
      rw [hiff]
      omega
    · exact (Nat.add_comm ..).le

theorem OwnerInv.releasePage (h : OwnerInv s) (hmem : id ∈ s.pages w) :
    OwnerInv (s.releasePage w id) := by
  have hpages : (s.releasePage w id).pages w = (s.pages w).erase id := pages_releasePage
  refine h.move (w := w) (fun w' hw' =>
    ⟨owner_releasePage_of_ne hw', pages_releasePage_of_ne hw'⟩) ?_
    (fun id' => ?_) fun id' => ?_
  · rw [owner_releasePage]
    exact (h.owner w).release id
  · rw [recorded_releasePage (h.owner w), hpages, count_erase_page]
    exact Nat.sub_le_sub_right (h.got w id') _
  · have hpos := List.count_pos_iff.mpr hmem
    have hpinned := h.pinned id
    rw [total_pages s w] at hpinned
    rw [hpages, refCnt_releasePage, count_erase_page]
    split
    · rename_i heq
      rw [heq]
      omega
    · omega

theorem OwnerInv.drained (h : OwnerInv s) (ht : Drained s w t) : OwnerInv t := by
  refine h.move ht.others ht.owner (fun id => ?_) fun id => ?_
  · rw [OwnerSys.recorded, ht.header, List.count_nil]
    exact Nat.zero_le _
  · have hgot := h.got w id
    have hpinned := h.pinned id
    rw [total_pages s w] at hpinned
    rw [ht.pages, ht.refCnt]
    omega

/-- Every call keeps the invariant. -/
theorem OwnerInv.step {a : Fin m × OwnerCall N} (h : OwnerInv s)
    (hstep : ownerStep s a = some t) : OwnerInv t := by
  obtain ⟨w, call⟩ := a
  cases call with
  | getPageByIndex page =>
    cases hstep
    exact h.getPageByIndex w page
  | readPage page =>
    cases hstep
    exact h.readPage w page
  | releasePage id =>
    simp only [ownerStep] at hstep
    split at hstep
    · rename_i hmem
      cases hstep
      exact h.releasePage (List.contains_iff_mem.mp hmem)
    · cases hstep
  | releaseAllResourceOwner =>
    obtain ⟨u, hrun, hu⟩ :=
      releaseAllResourceOwner_drained w _ s (h.owner w) (Nat.lt_succ_self _)
    simp only [ownerStep, hrun, Option.some.injEq] at hstep
    exact hstep ▸ h.drained hu

/-- Nothing is recorded yet; there can be pins of others. -/
structure OwnerInit (s : OwnerSys N m) : Prop where
  owner : ∀ w, s.owner w = createResourceOwnerPool N
  pages : ∀ w, s.pages w = []

theorem OwnerInit.inv (h : OwnerInit s) : OwnerInv s where
  owner w := by
    rw [h.owner w]
    exact ⟨rfl, fun _ hnode => absurd hnode List.not_mem_nil⟩
  got w id := by simp [OwnerSys.recorded, h.owner w, createResourceOwnerPool]
  pinned id := by simp [h.pages]

/-! ## The result -/

/-- `ReleaseAllResourceOwner` of worker `w` drops the pins that are recorded, and no
others. -/
structure ReleasesRecorded (s : OwnerSys N m) (w : Fin m) (t : OwnerSys N m) : Prop where
  pins : ∀ id, (t.bufferDesc id).refCnt + s.recorded w id = (s.bufferDesc id).refCnt
  others : ∀ id, s.othersPins w id ≤ (t.bufferDesc id).refCnt
  empty : (t.owner w).header = []

theorem OwnerInv.releasesRecorded_iff (h : OwnerInv s) (ht : Drained s w t) :
    ReleasesRecorded s w t ↔ ∀ id, s.recorded w id ≤ 1 := by
  constructor
  · intro hall id
    have hpins := hall.pins id
    have hgot := h.got w id
    have hpinned := h.pinned id
    rw [total_pages s w] at hpinned
    rw [ht.refCnt] at hpins
    omega
  · intro honce
    refine ⟨fun id => ?_, fun id => ?_, ht.header⟩ <;>
    · have hle := honce id
      have hgot := h.got w id
      have hpinned := h.pinned id
      rw [total_pages s w] at hpinned
      rw [ht.refCnt]
      omega

/-- In every state that is reached, `ReleaseAllResourceOwner` comes back, and it drops the
pins that are recorded exactly when no page is recorded twice. -/
theorem releaseAll_pins_iff {s₀ s : OwnerSys N m}
    {acts : List (Fin m × OwnerCall N)} (h₀ : OwnerInit s₀)
    (hrun : run ownerStep s₀ acts = some s) (w : Fin m) :
    ∃ t, Returns (fun fuel => s.releaseAllResourceOwner w fuel) t ∧
      (ReleasesRecorded s w t ↔ ∀ id, s.recorded w id ≤ 1) := by
  have hinv : OwnerInv s :=
    run_invariant (fun h _ hstep => h.step hstep) h₀.inv
      (Along.of_forall (fun _ _ => trivial) s₀ acts) hrun
  obtain ⟨t, ht, hdrained⟩ :=
    releaseAllResourceOwner_drained w _ s (hinv.owner w) (Nat.lt_succ_self _)
  refine ⟨t, ⟨(s.owner w).header.length + 1, fun fuel hfuel => ?_⟩,
    hinv.releasesRecorded_iff hdrained⟩
  exact releaseAllResourceOwner_mono ht hfuel

/-- A pool of two buffers, and two workers. -/
def twoBuffers : OwnerSys 2 2 where
  bufferDesc _ := ⟨⟨0, 0, 0, 0, .main⟩, .vlid, false, 0, 0, none⟩
  owner _ := createResourceOwnerPool 2
  pages _ := []

theorem twoBuffers_init : OwnerInit twoBuffers := ⟨fun _ => rfl, fun _ => rfl⟩

/-- Both workers get both pages, and worker 0 one of them twice, of which it releases one. -/
def pinsOnce : List (Fin 2 × OwnerCall 2) :=
  [(0, .getPageByIndex (some 0)), (1, .getPageByIndex (some 0)),
    (0, .getPageByIndex (some 1)),
    (1, .readPage (some 1)), (0, .getPageByIndex (some 0)), (0, .releasePage 0)]

theorem pinsOnce_released :
    OwnerInit twoBuffers ∧ ∃ t, Returns
      (fun fuel => (exec ownerStep twoBuffers pinsOnce).releaseAllResourceOwner 0 fuel) t ∧
        ReleasesRecorded (exec ownerStep twoBuffers pinsOnce) 0 t := by
  have hrun := run_exec (show (run ownerStep twoBuffers pinsOnce).isSome = true by decide)
  obtain ⟨t, ht, hiff⟩ := releaseAll_pins_iff twoBuffers_init hrun 0
  exact ⟨twoBuffers_init, t, ht, hiff.mpr (by decide)⟩

/-- A page that is got twice. -/
def pinsTwice : List (Fin 2 × OwnerCall 2) :=
  [(0, .getPageByIndex (some 0)), (0, .getPageByIndex (some 0))]

/-- One of the two pins stays. -/
theorem pinsTwice_leaks :
    OwnerInit twoBuffers ∧ ∃ s t, run ownerStep twoBuffers pinsTwice = some s ∧
      Returns (fun fuel => s.releaseAllResourceOwner 0 fuel) t ∧
        (s.recorded 0 0 = 2 ∧ (s.bufferDesc 0).refCnt = 2 ∧ (t.bufferDesc 0).refCnt = 1) ∧
          ¬ ReleasesRecorded s 0 t := by
  have hrun := run_exec (show (run ownerStep twoBuffers pinsTwice).isSome = true by decide)
  have hsome : ((exec ownerStep twoBuffers pinsTwice).releaseAllResourceOwner 0 3).isSome =
      true := by decide
  obtain ⟨t, ht⟩ := Option.isSome_iff_exists.mp hsome
  have hpins : ((exec ownerStep twoBuffers pinsTwice).releaseAllResourceOwner 0 3).map
      (fun t => (t.bufferDesc 0).refCnt) = some 1 := by decide
  rw [ht, Option.map_some, Option.some.injEq] at hpins
  have hrecorded : (exec ownerStep twoBuffers pinsTwice).recorded 0 0 = 2 := by decide
  have hrefs : ((exec ownerStep twoBuffers pinsTwice).bufferDesc 0).refCnt = 2 := by decide
  refine ⟨twoBuffers_init, _, t, hrun,
    ⟨3, fun fuel hfuel => releaseAllResourceOwner_mono ht hfuel⟩,
    ⟨hrecorded, hrefs, hpins⟩, fun hall => ?_⟩
  have hdrop := hall.pins 0
  omega

end Toadb
