/-
Toadb.Buffer.PoolTheorems — when the pool keeps a page in one buffer only.

`PoolInv` ties the descriptors to the hash table: the table maps exactly the
tags of the buffers that are not invalid, each to its buffer. `poolEffect`
sorts the steps of a worker by what they do to that tie. One of them breaks
it: `INIT_TAG` writes the requested tag into its empty buffer before
`HashGetFreeEntry` looks whether another worker has inserted the tag, and on
`HASH_FIND` leaves the buffer as it is, `BVF_TAG` and with that tag.

The free list of the table never runs out on the way (`freeList_ne_nil`):
an empty list would put every element on a chain or into the hands of a
`HashDeleteEntry`, each with a buffer of its own, and leave none for the
buffer that asks.
-/
import Toadb.Lib.Transition
import Toadb.Buffer.HashTableTheorems
import Toadb.Buffer.Pool
import Mathlib.Data.Fintype.EquivFin

namespace Toadb

open Transition

variable {N m : Nat}

/-! ## The invariant -/

/-- The buffer whose write lock a worker holds. -/
def PoolPhase.locked : PoolPhase N → Option (Fin N)
  | .clean _ id | .putFree _ id _ | .initTag _ id | .load _ id => some id
  | _ => none

/-- The tag a worker asks for. -/
def PoolPhase.requested : PoolPhase N → Option BufferTag
  | .idle => none
  | .search t | .recheck t _ | .freeList t | .lockFree t _ | .sweep t _ | .sweepLock t _
  | .clean t _ | .putFree t _ _ | .initTag t _ | .readEntry t _ | .load t _ => some t

/-- The invariant of the pool. -/
structure PoolInv (s : PoolState N m) : Prop where
  locks : ∀ b j, (s.bufferDesc b).lock = some j ↔ (s.phase j).locked = some b
  table : HashTableOk s.hashTable fun e => ∃ j t id, s.phase j = .putFree t id e
  freeing : ∀ j j' t t' id id' e, s.phase j = .putFree t id e →
    s.phase j' = .putFree t' id' e →
    j = j'
  cleaned : ∀ j t id e, s.phase j = .putFree t id e → (s.bufferDesc id).isValid = .invalid
  size : s.hashTable.maxNum = N
  requested : ∀ j t, (s.phase j).requested = some t → 0 < t.pageno
  loading : ∀ j t id, s.phase j = .load t id → (s.bufferDesc id).isValid ≠ .invalid
  keyed : ∀ t b, s.hashTable.lookup t = some b → 0 < t.pageno
  /-- A table entry names the buffer of its tag. -/
  named : ∀ t b, s.hashTable.lookup t = some b →
    (s.bufferDesc b).bufferTag = t ∧ (s.bufferDesc b).isValid ≠ .invalid
  /-- A buffer that holds a page is in the table. -/
  present : ∀ b, (s.bufferDesc b).isValid ≠ .invalid →
    s.hashTable.lookup (s.bufferDesc b).bufferTag = some b
  /-- An invalid buffer has no tag, but for the old one before `INIT_TAG`. -/
  blank : ∀ b, (s.bufferDesc b).isValid = .invalid → (∀ j t, s.phase j ≠ .initTag t b) →
    (∀ j t e, s.phase j ≠ .putFree t b e) → (s.bufferDesc b).bufferTag.pageno = 0

theorem PoolInv.singleCopy {s : PoolState N m} (h : PoolInv s) : SingleCopy s := by
  refine ⟨fun b b' hb hb' htag => ?_, h.named⟩
  have hlookup := h.present b hb
  rw [htag, h.present b' hb'] at hlookup
  exact (Option.some.inj hlookup).symm

theorem createBufferPool_inv [NeZero N] (getHashKey : BufferTag → Nat) :
    PoolInv (createBufferPool N m getHashKey) := by
  have hphase : ∀ j, (createBufferPool N m getHashKey).phase j = .idle := fun _ => rfl
  have hlookup : ∀ t, (createBufferPool N m getHashKey).hashTable.lookup t = none :=
    hashTableCreate_lookup 4 N getHashKey _
  have hinvalid : ∀ b, ((createBufferPool N m getHashKey).bufferDesc b).isValid = .invalid :=
    fun _ => rfl
  refine { locks := ?_, table := ?_, freeing := ?_, cleaned := ?_,
           size := rfl, requested := ?_,
           loading := ?_, keyed := ?_, named := ?_, present := ?_, blank := ?_ }
  · intro b j
    simp [createBufferPool, PoolPhase.locked]
  · have hheld :
        (fun e => ∃ j t id, (createBufferPool N m getHashKey).phase j = .putFree t id e)
        = fun _ => False := by
      funext e; simp [hphase]
    rw [hheld]
    exact hashTableCreate_ok (Nat.pos_of_neZero N) 4 getHashKey _
  · intro j j' t t' id id' e hj
    rw [hphase] at hj; cases hj
  · intro j t id e hj
    rw [hphase] at hj; cases hj
  · intro j t hj
    rw [hphase] at hj; cases hj
  · intro j t id hj
    rw [hphase] at hj; cases hj
  · intro t b hb
    rw [hlookup] at hb; cases hb
  · intro t b hb
    rw [hlookup] at hb; cases hb
  · intro b hb
    exact absurd (hinvalid b) hb
  · intro b _ _ _
    rfl

/-! ## What one step does -/

/-- The effects of one step of worker `w`. -/
inductive PoolEffect (s : PoolState N m) (w : Fin m) (s' : PoolState N m) : Prop where
  /-- The table and the tags stay, and no buffer turns invalid or stops being so. -/
  | quiet (id : Fin N) (d : BufferDesc m) (p : PoolPhase N)
      (hdesc : s'.bufferDesc = Function.update s.bufferDesc id d)
      (hphase : s'.phase = Function.update s.phase w p)
      (htable : s'.hashTable = s.hashTable)
      (htag : d.bufferTag = (s.bufferDesc id).bufferTag)
      (hvalid : d.isValid = .invalid ↔ (s.bufferDesc id).isValid = .invalid)
      (hlock : (d.lock = (s.bufferDesc id).lock ∧ p.locked = (s.phase w).locked) ∨
        ((s.bufferDesc id).lock = none ∧ d.lock = some w ∧ (s.phase w).locked = none ∧
          p.locked = some id) ∨
        ((s.phase w).locked = some id ∧ d.lock = none ∧ p.locked = none))
      (hinit : ∀ t b, s.phase w = .initTag t b → (s.bufferDesc b).isValid ≠ .invalid)
      (hbefore : ∀ t b e, s.phase w ≠ .putFree t b e) (hafter : ∀ t b e, p ≠ .putFree t b e)
      (hreq : ∀ t, p.requested = some t → (s.phase w).requested = some t ∨ 0 < t.pageno)
      (hload : ∀ t b, p = .load t b → b = id ∧ d.isValid ≠ .invalid)
  /-- `CleanPageBuffer` invalidates the victim and unlinks its tag. -/
  | clean (t : BufferTag) (id : Fin N) (entry : Option Nat)
      (table : HashTableInfo BufferTag (Fin N))
      (hat : s.phase w = .clean t id)
      (hunlink : hashUnlinkEntry s.hashTable
          (s.hashTable.getHashKey (s.bufferDesc id).bufferTag) (s.bufferDesc id).bufferTag
        = (entry, table))
      (hs' : s' =
        ({ s with hashTable := table }.setDesc id (s.bufferDesc id).pin.clean).goto w
        (afterUnlink t id entry))
  /-- The unlinked element becomes free. -/
  | putFree (t : BufferTag) (id : Fin N) (entry : Nat)
      (hat : s.phase w = .putFree t id entry)
      (hs' : s' = { s with hashTable := putFreeList s.hashTable entry }.goto w
        (.initTag t id))
  /-- `INIT_TAG` inserts an absent tag. -/
  | insert (t : BufferTag) (id : Fin N) (entry : Nat) (rest : List Nat)
      (hat : s.phase w = .initTag t id)
      (hinvalid : (s.bufferDesc id).isValid = .invalid)
      (habsent : s.hashTable.lookup t = none)
      (hfree : s.hashTable.freeHashElementList = entry :: rest)
      (hs' : s' = ({ s with hashTable := s.hashTable.insertEntry t id entry rest }.setDesc id
        ((s.bufferDesc id).initTag t)).goto w (.load t id))
  /-- `INIT_TAG` finds the tag in the table. -/
  | found (t : BufferTag) (id b : Fin N) (entry : Nat)
      (hat : s.phase w = .initTag t id)
      (hinvalid : (s.bufferDesc id).isValid = .invalid)
      (hfound : s.hashTable.lookup t = some b)
      (hs' : s' = (s.setDesc id ((s.bufferDesc id).initTag t).leave).goto w
        (.readEntry t entry))

variable {s s' : PoolState N m} {w : Fin m}

/-- A step that touches no descriptor. -/
theorem PoolEffect.move (p : PoolPhase N) (hdesc : s'.bufferDesc = s.bufferDesc)
    (hphase : s'.phase = Function.update s.phase w p) (htable : s'.hashTable = s.hashTable)
    (hlocked : p.locked = (s.phase w).locked) (hinit : ∀ t b, s.phase w ≠ .initTag t b)
    (hbefore : ∀ t b e, s.phase w ≠ .putFree t b e) (hafter : ∀ t b e, p ≠ .putFree t b e)
    (hreq : ∀ t, p.requested = some t → (s.phase w).requested = some t ∨ 0 < t.pageno)
    (hload : ∀ t b, p ≠ .load t b) : PoolEffect s w s' :=
  .quiet s.start (s.bufferDesc s.start) p
    (by rw [hdesc, Function.update_eq_self]) hphase htable
    rfl Iff.rfl (.inl ⟨rfl, hlocked⟩)
      (fun t b hp => absurd hp (hinit t b)) hbefore hafter hreq
    fun t b hp => absurd hp (hload t b)

theorem findRecheck_effect {t : BufferTag} {id : Fin N} (hat : s.phase w = .recheck t id)
    (hstep : findRecheck s w t id = some s') : PoolEffect s w s' := by
  simp only [findRecheck] at hstep
  split at hstep
  · rename_i hfree
    split at hstep
    · rename_i hsame
      split at hstep
      · rename_i htag
        cases hstep
        refine .quiet id _ (.load t id) rfl rfl rfl rfl Iff.rfl
          (.inr (.inl ⟨hfree, rfl, by simp [hat, PoolPhase.locked], rfl⟩)) (by simp [hat])
          (by simp [hat]) (by simp) (fun t' ht' => .inl ?_) ?_
        · simpa [hat, PoolPhase.requested] using ht'
        · intro t' b hp
          cases hp
          exact ⟨rfl, hsame.2⟩
      · cases hstep
        exact .quiet id _ .idle rfl rfl rfl rfl Iff.rfl
          (.inl ⟨rfl, by simp [hat, PoolPhase.locked]⟩) (by simp [hat])
            (by simp [hat]) (by simp)
          (by simp [PoolPhase.requested]) (by simp)
    · cases hstep
      exact .quiet id _ (.freeList t) rfl rfl rfl rfl Iff.rfl
        (.inl ⟨rfl, by simp [hat, PoolPhase.locked]⟩) (by simp [hat])
          (by simp [hat]) (by simp)
        (by simp [hat, PoolPhase.requested]) (by simp)
  · cases hstep

theorem clockSweepRound_effect [NeZero N] {t : BufferTag} {id : Fin N}
    (hat : s.phase w = .sweep t id) : PoolEffect s w (clockSweepRound s w t id) := by
  simp only [clockSweepRound]
  split
  · split
    · exact .move (.sweepLock t id) rfl rfl rfl
        (by simp [hat, PoolPhase.locked]) (by simp [hat])
        (by simp [hat])
        (by simp) (by simp [hat, PoolPhase.requested]) (by simp)
    · refine .quiet id _ _ rfl rfl rfl rfl Iff.rfl (.inl ⟨rfl, ?_⟩) (by simp [hat])
        (by simp [hat]) ?_ ?_ ?_
      all_goals split <;> simp [hat, PoolPhase.locked, PoolPhase.requested]
  · exact .move (.sweep t (id + 1)) rfl rfl rfl
      (by simp [hat, PoolPhase.locked]) (by simp [hat])
        (by simp [hat])
      (by simp) (by simp [hat, PoolPhase.requested]) (by simp)

theorem clockSweepEnd_effect [NeZero N] {t : BufferTag} {id : Fin N}
    (hat : s.phase w = .sweepLock t id) (hstep : clockSweepEnd s w t id = some s') :
    PoolEffect s w s' := by
  simp only [clockSweepEnd] at hstep
  split at hstep
  · rename_i hfree
    split at hstep
    · cases hstep
      exact .quiet id _ (.clean t id) rfl rfl rfl rfl Iff.rfl
        (.inr (.inl ⟨hfree, rfl, by simp [hat, PoolPhase.locked], rfl⟩)) (by simp [hat])
        (by simp [hat]) (by simp) (by simp [hat, PoolPhase.requested]) (by simp)
    · cases hstep
      exact .move (.sweep t id) rfl rfl rfl (by simp [hat, PoolPhase.locked]) (by simp [hat])
        (by simp [hat])
        (by simp) (by simp [hat, PoolPhase.requested]) (by simp)
  · cases hstep

theorem finishRead_effect (h : PoolInv s) {t : BufferTag} {id : Fin N} {readOk : Bool}
    (hat : s.phase w = .load t id) : PoolEffect s w (finishRead s w id readOk) := by
  have hload := h.loading w t id hat
  have hlocked : (s.phase w).locked = some id := by simp [hat, PoolPhase.locked]
  cases readOk with
  | true =>
    exact .quiet id { s.bufferDesc id with isValid := .vlid,
                                           lock := none } .idle rfl rfl rfl rfl
      (by simp [hload]) (.inr (.inr ⟨hlocked, rfl, rfl⟩)) (by simp [hat])
        (by simp [hat]) (by simp)
      (by simp [PoolPhase.requested]) (by simp)
  | false =>
    exact .quiet id (s.bufferDesc id).leave .idle rfl rfl rfl rfl Iff.rfl
      (.inr (.inr ⟨hlocked, rfl, rfl⟩)) (by simp [hat]) (by simp [hat]) (by simp)
      (by simp [PoolPhase.requested]) (by simp)

/-- The table has an element left for the buffer that asks for one. -/
theorem PoolInv.freeList_ne_nil (h : PoolInv s) {t : BufferTag} {id : Fin N}
    (hat : s.phase w = .initTag t id) (hinvalid : (s.bufferDesc id).isValid = .invalid) :
    s.hashTable.freeHashElementList ≠ [] := by
  intro hnil
  have hplaced : ∀ e : Fin N, ∃ b,
      s.hashTable.lookup (s.hashTable.element e).tag = some b ∧
        (∃ p c, e.val ∈ s.hashTable.segBuckets p c) ∨
      ∃ j t, s.phase j = .putFree t b e := by
    intro e
    rcases (h.table.cover e).mp
      (by rw [h.size]; exact e.isLt) with hfree | hheld | ⟨p, c, hmem⟩
    · rw [hnil] at hfree; cases hfree
    · obtain ⟨j, t, b, hj⟩ := hheld
      exact ⟨b, .inr ⟨j, t, hj⟩⟩
    · have hlookup := (h.table.lookup_eq_some_iff _ (s.hashTable.element e).value).mpr
        ⟨p, c, e, hmem, rfl, rfl⟩
      exact ⟨_, .inl ⟨hlookup, p, c, hmem⟩⟩
  choose buffer hbuffer using hplaced
  have hlock : ∀ {j t b e}, s.phase j = .putFree t b e → (s.bufferDesc b).lock = some j :=
    fun hj => (h.locks _ _).mpr (by simp [hj, PoolPhase.locked])
  -- Every element has a buffer of its own ...
  have hinj : Function.Injective buffer := by
    intro e e' heq
    rcases hbuffer e with ⟨hlookup, p, c, hmem⟩ | ⟨j, t, hj⟩
    · rcases hbuffer e' with ⟨hlookup', p', c', hmem'⟩ | ⟨j', t', hj'⟩
      · have htag : (s.hashTable.element e).tag = (s.hashTable.element e').tag := by
          rw [← (h.named _ _ hlookup).1, heq, (h.named _ _ hlookup').1]
        have hchain := h.table.mem_chain hmem
        rw [htag] at hchain
        exact Fin.ext (h.table.unique _ _ _ _ hchain (h.table.mem_chain hmem') htag)
      · exact absurd (heq ▸ h.cleaned _ _ _ _ hj') (h.named _ _ hlookup).2
    · rcases hbuffer e' with ⟨hlookup', -⟩ | ⟨j', t', hj'⟩
      · exact absurd (heq ▸ h.cleaned _ _ _ _ hj) (h.named _ _ hlookup').2
      · have hjj : j = j' := by
          have := (heq ▸ hlock hj).symm.trans (hlock hj')
          exact Option.some.inj this
        subst hjj
        rw [hj] at hj'
        injection hj' with _ _ he
        exact Fin.ext he
  -- ... so some element has the buffer that asks, which has none.
  obtain ⟨e, he⟩ := (Finite.injective_iff_surjective.mp hinj) id
  rcases hbuffer e with ⟨hlookup, -⟩ | ⟨j, t', hj⟩
  · exact (h.named _ _ hlookup).2 (he ▸ hinvalid)
  · have hw : (s.bufferDesc id).lock = some w :=
      (h.locks _ _).mpr (by simp [hat, PoolPhase.locked])
    have hjw : j = w := Option.some.inj ((he ▸ hlock hj).symm.trans hw)
    rw [hjw, hat] at hj
    cases hj

theorem initTag_effect (h : PoolInv s) {t : BufferTag} {id : Fin N}
    (hat : s.phase w = .initTag t id) : PoolEffect s w (initTag s w t id) := by
  have hlocked : (s.phase w).locked = some id := by simp [hat, PoolPhase.locked]
  simp only [initTag]
  split
  · rename_i hinvalid
    rcases hashGetFreeEntry_cases s.hashTable t id with ⟨entry, heq, hfound⟩ | ⟨-, hnil, -⟩ |
      ⟨entry, rest, habsent, hfree, heq⟩
    · rw [heq]
      exact .found t id _ entry hat hinvalid hfound rfl
    · exact absurd hnil (h.freeList_ne_nil hat hinvalid)
    · rw [heq]
      exact .insert t id entry rest hat hinvalid habsent hfree rfl
  · rename_i hvalid
    have hvalid' : ∀ t' b, s.phase w = .initTag t' b →
        (s.bufferDesc b).isValid ≠ .invalid := by
      intro t' b hb
      rw [hat] at hb
      cases hb
      exact hvalid
    exact .quiet id _ (.search t) rfl rfl rfl rfl Iff.rfl
      (.inr (.inr ⟨hlocked, rfl, rfl⟩)) hvalid' (by simp [hat]) (by simp)
      (by simp [hat, PoolPhase.requested]) (by simp)

/-- The step inversion: from an invariant state a step has one of the effects. -/
theorem poolEffect [NeZero N] (h : PoolInv s) {a : Fin m × PoolCall N}
    (hstep : poolStep s a = some s') : PoolEffect s a.1 s' := by
  obtain ⟨w, call⟩ := a
  cases call with
  | readPage tableId index forkNum =>
    simp only [poolStep] at hstep
    split at hstep
    · rename_i hidle
      split at hstep
      · cases hstep
        exact .move .idle rfl (by rw [← hidle, Function.update_eq_self]) rfl
          (by rw [hidle]) (by simp [hidle]) (by simp [hidle]) (by simp)
            (by simp [PoolPhase.requested]) (by simp)
      · rename_i hindex
        cases hstep
        refine .move (.search _) rfl rfl rfl
          (by simp [hidle, PoolPhase.locked]) (by simp [hidle])
          (by simp [hidle])
          (by simp) (fun t ht => .inr ?_) (by simp)
        simp only [PoolPhase.requested, Option.some.injEq] at ht
        rw [← ht]
        show 0 < index
        omega
    · cases hstep
  | releasePage id =>
    simp only [poolStep] at hstep
    split at hstep
    · rename_i hready
      cases hstep
      exact .quiet id (s.bufferDesc id).unPin .idle rfl
        (by rw [← hready.1, Function.update_eq_self]; rfl) rfl rfl Iff.rfl
        (.inl ⟨rfl, by rw [hready.1]⟩) (by simp [hready.1]) (by simp [hready.1]) (by simp)
        (by simp [PoolPhase.requested]) (by simp)
    · cases hstep
  | next readOk =>
    simp only [poolStep, readNext] at hstep
    cases hat : s.phase w with
    | idle => simp [hat] at hstep
    | search t =>
      simp only [hat, Option.some.injEq] at hstep
      subst hstep
      refine .move _ rfl rfl rfl ?_ (by simp [hat]) (by simp [hat]) ?_ ?_ ?_
      all_goals split <;> simp [hat, PoolPhase.locked, PoolPhase.requested]
    | recheck t id =>
      simp only [hat] at hstep
      exact findRecheck_effect hat hstep
    | freeList t =>
      simp only [hat, Option.some.injEq] at hstep
      subst hstep
      refine .move _ rfl rfl rfl ?_ (by simp [hat]) (by simp [hat]) ?_ ?_ ?_
      all_goals split <;> simp [hat, PoolPhase.locked, PoolPhase.requested]
    | lockFree t id =>
      simp only [hat] at hstep
      split at hstep
      · rename_i hfree
        cases hstep
        exact .quiet id _ (.initTag t id) rfl rfl rfl rfl Iff.rfl
          (.inr (.inl ⟨hfree, rfl, by simp [hat, PoolPhase.locked], rfl⟩)) (by simp [hat])
          (by simp [hat]) (by simp) (by simp [hat, PoolPhase.requested]) (by simp)
      · cases hstep
    | sweep t id =>
      simp only [hat, Option.some.injEq] at hstep
      subst hstep
      exact clockSweepRound_effect hat
    | sweepLock t id =>
      simp only [hat] at hstep
      exact clockSweepEnd_effect hat hstep
    | clean t id =>
      simp only [hat, Option.some.injEq] at hstep
      exact .clean t id _ _ hat rfl hstep.symm
    | putFree t id entry =>
      simp only [hat, Option.some.injEq] at hstep
      exact .putFree t id entry hat hstep.symm
    | initTag t id =>
      simp only [hat, Option.some.injEq] at hstep
      subst hstep
      exact initTag_effect h hat
    | readEntry t entry =>
      simp only [hat, Option.some.injEq] at hstep
      subst hstep
      exact .move (.recheck t _) rfl rfl rfl (by simp [hat, PoolPhase.locked]) (by simp [hat])
        (by simp [hat])
        (by simp) (by simp [hat, PoolPhase.requested]) (by simp)
    | load t id =>
      simp only [hat, Option.some.injEq] at hstep
      subst hstep
      exact finishRead_effect h hat

/-! ## The invariant along a run -/

/-- The descriptor locks and the places of the workers stay in step. -/
theorem locks_update {id : Fin N} {d : BufferDesc m} {p : PoolPhase N}
    (h : ∀ b j, (s.bufferDesc b).lock = some j ↔ (s.phase j).locked = some b)
    (hlock : (d.lock = (s.bufferDesc id).lock ∧ p.locked = (s.phase w).locked) ∨
      ((s.bufferDesc id).lock = none ∧ d.lock = some w ∧ (s.phase w).locked = none ∧
        p.locked = some id) ∨
      ((s.phase w).locked = some id ∧ d.lock = none ∧ p.locked = none)) :
    ∀ b j, (Function.update s.bufferDesc id d b).lock = some j ↔
      (Function.update s.phase w p j).locked = some b := by
  intro b j
  have hid := h id j
  have hw := h b w
  have hidw := h id w
  by_cases hb : b = id <;> by_cases hj : j = w
  · subst hb hj
    rcases hlock with ⟨hd, hp⟩ | ⟨-, hd, -, hp⟩ | ⟨-, hd, hp⟩ <;> simp [hd, hp, hid]
  · subst hb
    rw [Function.update_self, Function.update_of_ne hj]
    rcases hlock with ⟨hd, -⟩ | ⟨hnone, hd, -⟩ | ⟨hsome, hd, -⟩
    · rw [hd, hid]
    · rw [← hid, hd, hnone]
      simp [Ne.symm hj]
    · rw [← hid, hd, hidw.mpr hsome]
      simp [Ne.symm hj]
  · subst hj
    rw [Function.update_of_ne hb, Function.update_self]
    rcases hlock with ⟨-, hp⟩ | ⟨-, -, hnone, hp⟩ | ⟨hsome, -, hp⟩
    · rw [hw, hp]
    · rw [hw, hnone, hp]
      simp [Ne.symm hb]
    · rw [hw, hsome, hp]
      simp [Ne.symm hb]
  · rw [Function.update_of_ne hb, Function.update_of_ne hj]
    exact h b j

/-- A worker that holds no unlinked element leaves the held ones as they are. -/
theorem held_update {p : PoolPhase N} (hbefore : ∀ t b e, s.phase w ≠ .putFree t b e)
    (hafter : ∀ t b e, p ≠ .putFree t b e) {j : Fin m} {t : BufferTag} {b : Fin N} {e : Nat} :
    Function.update s.phase w p j = .putFree t b e ↔ s.phase j = .putFree t b e := by
  by_cases hj : j = w
  · subst hj
    rw [Function.update_self]
    exact ⟨fun hp => absurd hp (hafter t b e), fun hp => absurd hp (hbefore t b e)⟩
  · rw [Function.update_of_ne hj]

theorem requested_update {p : PoolPhase N} (h : PoolInv s)
    (hreq : ∀ t, p.requested = some t → (s.phase w).requested = some t ∨ 0 < t.pageno) :
    ∀ j t, (Function.update s.phase w p j).requested = some t → 0 < t.pageno := by
  intro j t ht
  by_cases hj : j = w
  · subst hj
    rw [Function.update_self] at ht
    rcases hreq t ht with hold | hpos
    · exact h.requested j t hold
    · exact hpos
  · rw [Function.update_of_ne hj] at ht
    exact h.requested j t ht

theorem PoolInv.quiet (h : PoolInv s) {id : Fin N} {d : BufferDesc m} {p : PoolPhase N}
    (hdesc : s'.bufferDesc = Function.update s.bufferDesc id d)
    (hphase : s'.phase = Function.update s.phase w p)
    (htable : s'.hashTable = s.hashTable)
    (htag : d.bufferTag = (s.bufferDesc id).bufferTag)
    (hvalid : d.isValid = .invalid ↔ (s.bufferDesc id).isValid = .invalid)
    (hlock : (d.lock = (s.bufferDesc id).lock ∧ p.locked = (s.phase w).locked) ∨
      ((s.bufferDesc id).lock = none ∧ d.lock = some w ∧ (s.phase w).locked = none ∧
        p.locked = some id) ∨
      ((s.phase w).locked = some id ∧ d.lock = none ∧ p.locked = none))
    (hinit : ∀ t b, s.phase w = .initTag t b → (s.bufferDesc b).isValid ≠ .invalid)
    (hbefore : ∀ t b e, s.phase w ≠ .putFree t b e) (hafter : ∀ t b e, p ≠ .putFree t b e)
    (hreq : ∀ t, p.requested = some t → (s.phase w).requested = some t ∨ 0 < t.pageno)
    (hload : ∀ t b, p = .load t b → b = id ∧ d.isValid ≠ .invalid) : PoolInv s' := by
  have hput : ∀ {j t b e}, s'.phase j = .putFree t b e ↔ s.phase j = .putFree t b e := by
    rw [hphase]; exact held_update hbefore hafter
  have htag' : ∀ b, (s'.bufferDesc b).bufferTag = (s.bufferDesc b).bufferTag := by
    intro b
    rw [hdesc]
    by_cases hb : b = id
    · rw [hb, Function.update_self, htag]
    · rw [Function.update_of_ne hb]
  have hvalid' : ∀ b, (s'.bufferDesc b).isValid = .invalid ↔
      (s.bufferDesc b).isValid = .invalid := by
    intro b
    rw [hdesc]
    by_cases hb : b = id
    · rw [hb, Function.update_self, hvalid]
    · rw [Function.update_of_ne hb]
  constructor
  · rw [hdesc, hphase]
    exact locks_update h.locks hlock
  · rw [htable]
    simpa only [hput] using h.table
  · intro j j' t t' b b' e hj hj'
    exact h.freeing j j' t t' b b' e (hput.mp hj) (hput.mp hj')
  · intro j t b e hj
    exact (hvalid' b).mpr (h.cleaned j t b e (hput.mp hj))
  · rw [htable]; exact h.size
  · rw [hphase]; exact requested_update h hreq
  · intro j t b hj
    rw [hphase] at hj
    by_cases hjw : j = w
    · subst hjw
      rw [Function.update_self] at hj
      obtain ⟨rfl, hne⟩ := hload t b hj
      rw [hdesc, Function.update_self]
      exact hne
    · rw [Function.update_of_ne hjw] at hj
      exact fun hinv => h.loading j t b hj ((hvalid' b).mp hinv)
  · rw [htable]; exact h.keyed
  · intro t b hb
    rw [htable] at hb
    obtain ⟨hbt, hbv⟩ := h.named t b hb
    exact ⟨(htag' b).trans hbt, fun hinv => hbv ((hvalid' b).mp hinv)⟩
  · intro b hb
    rw [htable, htag']
    exact h.present b fun hinv => hb ((hvalid' b).mpr hinv)
  · intro b hinv hnoInit hnoPut
    rw [htag']
    refine h.blank b ((hvalid' b).mp hinv) ?_ fun j t e hj => hnoPut j t e (hput.mpr hj)
    intro j t hj
    by_cases hjw : j = w
    · subst hjw
      exact hinit t b hj ((hvalid' b).mp hinv)
    · refine hnoInit j t ?_
      rw [hphase, Function.update_of_ne hjw]
      exact hj

/-- The step of `PutFreeList`. -/
theorem PoolInv.putFree (h : PoolInv s) {t : BufferTag} {id : Fin N} {entry : Nat}
    (hat : s.phase w = .putFree t id entry) :
    PoolInv ({ s with hashTable := putFreeList s.hashTable entry }.goto w
      (.initTag t id)) := by
  have hput : ∀ {j t' b e}, Function.update s.phase w (.initTag t id) j = .putFree t' b e ↔
      s.phase j = .putFree t' b e ∧ j ≠ w := by
    intro j t' b e
    by_cases hj : j = w
    · simp [hj]
    · simp [hj]
  have hlocks := locks_update (p := .initTag t id) (d := s.bufferDesc id) (w := w) h.locks
    (.inl ⟨rfl, by simp [hat, PoolPhase.locked]⟩)
  rw [Function.update_eq_self] at hlocks
  have hreq := requested_update (w := w) (p := .initTag t id) h fun t' ht' =>
    .inl (by simpa [hat, PoolPhase.requested] using ht')
  refine { locks := hlocks, table := ?_, freeing := ?_, cleaned := ?_, size := h.size,
           requested := hreq, loading := ?_, keyed := h.keyed, named := h.named,
           present := h.present, blank := ?_ }
  · have hok := h.table.putFreeList ⟨w, t, id, hat⟩
    have hheld :
        (fun e => ∃ j t' b, Function.update s.phase w (.initTag t id) j = .putFree t' b e)
        = fun e => (∃ j t' b, s.phase j = .putFree t' b e) ∧ e ≠ entry := by
      funext e
      apply propext
      simp only [hput]
      constructor
      · rintro ⟨j, t', b, hj, hjw⟩
        refine ⟨⟨j, t', b, hj⟩, ?_⟩
        rintro rfl
        exact hjw (h.freeing j w t' t b id e hj hat)
      · rintro ⟨⟨j, t', b, hj⟩, hne⟩
        refine ⟨j, t', b, hj, ?_⟩
        rintro rfl
        rw [hat] at hj
        injection hj with _ _ he
        exact hne he.symm
    show HashTableOk (Toadb.putFreeList s.hashTable entry) fun e => ∃ j t' b,
      Function.update s.phase w (.initTag t id) j = .putFree t' b e
    rw [hheld]
    exact hok
  · intro j j' t' t'' b b' e hj hj'
    exact h.freeing j j' t' t'' b b' e (hput.mp hj).1 (hput.mp hj').1
  · intro j t' b e hj
    exact h.cleaned j t' b e (hput.mp hj).1
  · intro j t' b hj
    have hj : Function.update s.phase w (.initTag t id) j = .load t' b := hj
    by_cases hjw : j = w
    · rw [hjw, Function.update_self] at hj; cases hj
    · rw [Function.update_of_ne hjw] at hj
      exact h.loading j t' b hj
  · intro b hinv hnoInit hnoPut
    have hkeep : ∀ j, j ≠ w → Function.update s.phase w (.initTag t id) j = s.phase j :=
      fun j hj => Function.update_of_ne hj _ _
    refine h.blank b hinv (fun j t' hj => ?_) fun j t' e hj => ?_
    · by_cases hjw : j = w
      · rw [hjw, hat] at hj; cases hj
      · exact hnoInit j t' ((hkeep j hjw).trans hj)
    · by_cases hjw : j = w
      · rw [hjw, hat] at hj
        cases hj
        exact hnoInit w t (Function.update_self ..)
      · exact hnoPut j t' e ((hkeep j hjw).trans hj)

/-- A locked buffer is nobody else's. -/
theorem PoolInv.ne_of_locked (h : PoolInv s) {id b : Fin N} {j : Fin m}
    (hw : (s.phase w).locked = some id) (hj : (s.phase j).locked = some b) (hne : j ≠ w) :
    b ≠ id := by
  rintro rfl
  exact hne (Option.some.inj (((h.locks b j).mpr hj).symm.trans ((h.locks b w).mpr hw)))

/-- A buffer that stays invalid is without a tag as before, if it is not the one the worker
has locked. -/
theorem PoolInv.blank_update (h : PoolInv s) {id b : Fin N} {p : PoolPhase N}
    (hlocked : (s.phase w).locked = some id)
    (hne : b ≠ id) (hinv : (s.bufferDesc b).isValid = .invalid)
    (hnoInit : ∀ j t, Function.update s.phase w p j ≠ .initTag t b)
    (hnoPut : ∀ j t e, Function.update s.phase w p j ≠ .putFree t b e) :
    (s.bufferDesc b).bufferTag.pageno = 0 := by
  have hkeep (q : PoolPhase N) (hq : q.locked = some b) (j : Fin m)
      (hupdate : Function.update s.phase w p j ≠ q) :
      s.phase j ≠ q := by
    intro hj
    have hjw : j ≠ w := by
      rintro rfl
      rw [hj, hq] at hlocked
      exact hne (Option.some.inj hlocked)
    exact hupdate ((Function.update_of_ne hjw ..).trans hj)
  exact h.blank b hinv (fun j t => hkeep _ rfl j (hnoInit j t)) fun j t e =>
    hkeep _ rfl j (hnoPut j t e)

/-- Another buffer has another tag than the victim. -/
theorem PoolInv.tag_ne_victim (h : PoolInv s) {t : BufferTag} {id b : Fin N}
    (hat : s.phase w = .clean t id)
    (hb : b ≠ id) (hvalid : (s.bufferDesc b).isValid ≠ .invalid) :
    (s.bufferDesc b).bufferTag ≠ (s.bufferDesc id).bufferTag := by
  intro heq
  have hlocked : (s.phase w).locked = some id := by simp [hat, PoolPhase.locked]
  have hpresent := h.present b hvalid
  by_cases hid : (s.bufferDesc id).isValid = .invalid
  · -- then the victim has no tag
    have hother (q : PoolPhase N) (hq : q.locked = some id) (hclean : q ≠ .clean t id)
        (j : Fin m) : s.phase j ≠ q := by
      intro hj
      by_cases hjw : j = w
      · exact hclean (by rw [← hj, hjw, hat])
      · exact h.ne_of_locked hlocked (hj ▸ hq) hjw rfl
    have hzero := h.blank id hid (fun j t' => hother (.initTag t' id) rfl nofun j)
      fun j t' e => hother (.putFree t' id e) rfl nofun j
    have hpos := h.keyed _ _ hpresent
    rw [heq] at hpos
    omega
  · rw [heq, h.present id hid] at hpresent
    exact hb (Option.some.inj hpresent).symm

/-- The worker that has unlinked an element is the only new one with an element in its
hands. -/
theorem putFree_afterUnlink {t t' : BufferTag} {id b : Fin N} {entry : Option Nat}
    {e : Nat} {j : Fin m} :
    Function.update s.phase w (afterUnlink t id entry) j = .putFree t' b e ↔
      (j ≠ w ∧ s.phase j = .putFree t' b e) ∨ (j = w ∧ t' = t ∧ b = id ∧ entry = some e) := by
  by_cases hj : j = w
  · subst hj
    rw [Function.update_self]
    cases entry <;> simp [afterUnlink, eq_comm]
  · simp [hj]

/-- The elements in the hands of a worker after that. -/
theorem held_afterUnlink {t : BufferTag} {id : Fin N} {entry : Option Nat}
    (hat : s.phase w = .clean t id) :
    (fun e => ∃ j t' b, Function.update s.phase w (afterUnlink t id entry) j =
      .putFree t' b e)
      = fun e => (∃ j t' b, s.phase j = .putFree t' b e) ∨ entry = some e := by
  funext e
  apply propext
  simp only [putFree_afterUnlink]
  constructor
  · rintro ⟨j, t', b, ⟨-, hj⟩ | ⟨-, -, -, he⟩⟩
    · exact .inl ⟨j, t', b, hj⟩
    · exact .inr he
  · rintro (⟨j, t', b, hj⟩ | he)
    · refine ⟨j, t', b, .inl ⟨?_, hj⟩⟩
      rintro rfl
      rw [hat] at hj
      cases hj
    · exact ⟨w, t, id, .inr ⟨rfl, rfl, rfl, he⟩⟩

/-- The step of `CleanPageBuffer`: the tag of the victim leaves the table. -/
theorem PoolInv.clean (h : PoolInv s) {t : BufferTag} {id : Fin N} {entry : Option Nat}
    {table : HashTableInfo BufferTag (Fin N)} (hat : s.phase w = .clean t id)
    (hunlink : hashUnlinkEntry s.hashTable
        (s.hashTable.getHashKey (s.bufferDesc id).bufferTag) (s.bufferDesc id).bufferTag
      = (entry, table)) {p : PoolPhase N}
    (hp : p = afterUnlink t id entry) :
    PoolInv
      (({ s with hashTable := table }.setDesc id (s.bufferDesc id).pin.clean).goto w p) := by
  have hlocked : (s.phase w).locked = some id := by simp [hat, PoolPhase.locked]
  have hplocked : p.locked = some id := by rw [hp]; cases entry <;> rfl
  subst hp
  obtain ⟨hok, hlookup⟩ := h.table.lookup_hashUnlinkEntry (s.bufferDesc id).bufferTag
  rw [hunlink] at hok hlookup
  have hdesc : ∀ b, b ≠ id →
      Function.update s.bufferDesc id (s.bufferDesc id).pin.clean b = s.bufferDesc b :=
    fun b hb => Function.update_of_ne hb _ _
  have hself := Function.update_self id (s.bufferDesc id).pin.clean s.bufferDesc
  have hchained : ∀ e, entry = some e → ∃ q c, e ∈ s.hashTable.segBuckets q c := by
    rintro e rfl
    exact h.table.unlinked_mem (congrArg Prod.fst hunlink)
  have hlocks := locks_update (p := afterUnlink t id entry)
      (d := (s.bufferDesc id).pin.clean) (w := w) h.locks
    (.inl ⟨rfl, by rw [hplocked, hlocked]⟩)
  have hreq :=
    requested_update (w := w) (p := afterUnlink t id entry) h fun t' ht' => .inl (by
    cases entry <;> simpa [afterUnlink, hat, PoolPhase.requested] using ht')
  refine { locks := hlocks, table := ?_, freeing := ?_, cleaned := ?_, size := ?_,
           requested := hreq, loading := ?_, keyed := ?_, named := ?_, present := ?_,
           blank := ?_ }
  · show HashTableOk table fun e => ∃ j t' b,
        Function.update s.phase w (afterUnlink t id entry) j = .putFree t' b e
    rw [held_afterUnlink hat]
    exact hok
  · intro j j' t' t'' b b' e hj hj'
    rcases putFree_afterUnlink.mp hj with ⟨-, hj⟩ | ⟨hjw, -, -, he⟩
    · rcases putFree_afterUnlink.mp hj' with ⟨-, hj'⟩ | ⟨-, -, -, he'⟩
      · exact h.freeing j j' t' t'' b b' e hj hj'
      · obtain ⟨q, c, hmem⟩ := hchained e he'
        exact absurd hmem ((h.table.held_off e ⟨j, t', b, hj⟩).2 q c)
    · rcases putFree_afterUnlink.mp hj' with ⟨-, hj'⟩ | ⟨hjw', -⟩
      · obtain ⟨q, c, hmem⟩ := hchained e he
        exact absurd hmem ((h.table.held_off e ⟨j', t'', b', hj'⟩).2 q c)
      · exact hjw.trans hjw'.symm
  · intro j t' b e hj
    show (Function.update s.bufferDesc id _ b).isValid = _
    by_cases hb : b = id
    · rw [hb, hself]; rfl
    · rw [hdesc b hb]
      rcases putFree_afterUnlink.mp hj with ⟨-, hj⟩ | ⟨-, -, hb', -⟩
      · exact h.cleaned j t' b e hj
      · exact absurd hb' hb
  · have hsize := hashUnlinkEntry_maxNum s.hashTable (s.bufferDesc id).bufferTag
    rw [hunlink] at hsize
    exact hsize.trans h.size
  · intro j t' b hj
    have hj : Function.update s.phase w (afterUnlink t id entry) j = .load t' b := hj
    by_cases hjw : j = w
    · rw [hjw, Function.update_self] at hj
      cases entry <;> cases hj
    · rw [Function.update_of_ne hjw] at hj
      have hb := h.ne_of_locked hlocked (by rw [hj]; rfl) hjw
      show (Function.update s.bufferDesc id _ b).isValid ≠ _
      rw [hdesc b hb]
      exact h.loading j t' b hj
  · intro k b hb
    have hb := (hlookup k).symm.trans hb
    split at hb
    · cases hb
    · exact h.keyed k b hb
  · intro k b hb
    have hb := (hlookup k).symm.trans hb
    split at hb
    · cases hb
    · rename_i hk
      obtain ⟨hbt, hbv⟩ := h.named k b hb
      have hbid : b ≠ id := by
        rintro rfl
        exact hk hbt.symm
      show (Function.update s.bufferDesc id _ b).bufferTag = k ∧
        (Function.update s.bufferDesc id _ b).isValid ≠ _
      rw [hdesc b hbid]
      exact ⟨hbt, hbv⟩
  · intro b hb
    have hb : (Function.update s.bufferDesc id (s.bufferDesc id).pin.clean b).isValid ≠
        .invalid :=
      hb
    show table.lookup (Function.update s.bufferDesc id _ b).bufferTag = some b
    have hbid : b ≠ id := by
      rintro rfl
      rw [hself] at hb
      exact hb rfl
    rw [hdesc b hbid] at hb ⊢
    have := hlookup (s.bufferDesc b).bufferTag
    rw [if_neg (h.tag_ne_victim hat hbid hb)] at this
    exact this.trans (h.present b hb)
  · intro b hinv hnoInit hnoPut
    have hbid : b ≠ id := by
      rintro rfl
      cases entry with
      | some e => exact hnoPut w t e (Function.update_self ..)
      | none => exact hnoInit w t (Function.update_self ..)
    have hinv : (Function.update s.bufferDesc id (s.bufferDesc id).pin.clean b).isValid
        = .invalid := hinv
    show (Function.update s.bufferDesc id _ b).bufferTag.pageno = 0
    rw [hdesc b hbid] at hinv ⊢
    exact h.blank_update hlocked hbid hinv hnoInit hnoPut

/-- The step of `INIT_TAG` with an absent tag. -/
theorem PoolInv.insert (h : PoolInv s) {t : BufferTag} {id : Fin N} {entry : Nat}
    {rest : List Nat} (hat : s.phase w = .initTag t id)
    (hinvalid : (s.bufferDesc id).isValid = .invalid)
    (habsent : s.hashTable.lookup t = none)
    (hfree : s.hashTable.freeHashElementList = entry :: rest) :
    PoolInv (({ s with hashTable := s.hashTable.insertEntry t id entry rest }.setDesc id
      ((s.bufferDesc id).initTag t)).goto w (.load t id)) := by
  have hlocked : (s.phase w).locked = some id := by simp [hat, PoolPhase.locked]
  have hput : ∀ {j t' b e}, Function.update s.phase w (.load t id) j = .putFree t' b e ↔
      s.phase j = .putFree t' b e := held_update (by simp [hat]) (by simp)
  obtain ⟨hok, hlookup⟩ : _ ∧ ∀ k, (s.hashTable.insertEntry t id entry rest).lookup k = _ :=
    h.table.lookup_insertEntry hfree habsent
  have hdesc : ∀ b, b ≠ id →
      Function.update s.bufferDesc id ((s.bufferDesc id).initTag t) b = s.bufferDesc b :=
    fun b hb => Function.update_of_ne hb _ _
  have hself := Function.update_self id ((s.bufferDesc id).initTag t) s.bufferDesc
  have hlocks := locks_update (p := .load t id) (d := (s.bufferDesc id).initTag t) (w := w)
    h.locks (.inl ⟨rfl, hlocked.symm⟩)
  have hreq := requested_update (w := w) (p := .load t id) h fun t' ht' =>
    .inl (by simpa [hat, PoolPhase.requested] using ht')
  refine { locks := hlocks, table := ?_, freeing := ?_, cleaned := ?_, size := h.size,
           requested := hreq, loading := ?_, keyed := ?_, named := ?_, present := ?_,
           blank := ?_ }
  · show HashTableOk (s.hashTable.insertEntry t id entry rest) fun e => ∃ j t' b,
      Function.update s.phase w (.load t id) j = .putFree t' b e
    simpa only [hput] using hok
  · intro j j' t' t'' b b' e hj hj'
    exact h.freeing j j' t' t'' b b' e (hput.mp hj) (hput.mp hj')
  · intro j t' b e hnew
    have hj := hput.mp hnew
    have hjw : j ≠ w := by
      rintro rfl
      rw [hat] at hj; cases hj
    show (Function.update s.bufferDesc id _ b).isValid = _
    rw [hdesc b (h.ne_of_locked hlocked (by rw [hj]; rfl) hjw)]
    exact h.cleaned j t' b e hj
  · intro j t' b hj
    have hj : Function.update s.phase w (.load t id) j = .load t' b := hj
    show (Function.update s.bufferDesc id _ b).isValid ≠ _
    by_cases hb : b = id
    · rw [hb, hself]
      simp [BufferDesc.initTag]
    · have hjw : j ≠ w := by
        rintro rfl
        rw [Function.update_self] at hj
        cases hj
        exact hb rfl
      rw [Function.update_of_ne hjw] at hj
      rw [hdesc b hb]
      exact h.loading j t' b hj
  · intro k b hb
    have hb := (hlookup k).symm.trans hb
    split at hb
    · rename_i hk
      rw [hk]
      exact h.requested w t (by simp [hat, PoolPhase.requested])
    · exact h.keyed k b hb
  · intro k b hb
    have hb := (hlookup k).symm.trans hb
    show (Function.update s.bufferDesc id _ b).bufferTag = k ∧
      (Function.update s.bufferDesc id _ b).isValid ≠ _
    split at hb
    · rename_i hk
      cases hb
      rw [hself, hk]
      simp [BufferDesc.initTag]
    · obtain ⟨hbt, hbv⟩ := h.named k b hb
      have hbid : b ≠ id := by
        rintro rfl
        exact hbv hinvalid
      rw [hdesc b hbid]
      exact ⟨hbt, hbv⟩
  · intro b hb
    show (s.hashTable.insertEntry t id entry rest).lookup
      (Function.update s.bufferDesc id _ b).bufferTag = some b
    rw [hlookup]
    by_cases hbid : b = id
    · subst hbid
      rw [hself]
      exact if_pos rfl
    · have hb : (s.bufferDesc b).isValid ≠ .invalid := by rw [← hdesc b hbid]; exact hb
      have hpresent := h.present b hb
      rw [hdesc b hbid, if_neg, hpresent]
      rintro heq
      rw [heq, habsent] at hpresent
      cases hpresent
  · intro b hinv hnoInit hnoPut
    have hinv : (Function.update s.bufferDesc id ((s.bufferDesc id).initTag t) b).isValid
        = .invalid := hinv
    show (Function.update s.bufferDesc id _ b).bufferTag.pageno = 0
    have hbid : b ≠ id := by
      rintro rfl
      rw [hself] at hinv; cases hinv
    rw [hdesc b hbid] at hinv ⊢
    exact h.blank_update hlocked hbid hinv hnoInit hnoPut

/-! ## Single copy -/

/-- The worker does not write a tag that is in the table. -/
def TagAbsent (s : PoolState N m) (a : Fin m × PoolCall N) : Prop :=
  match s.phase a.1 with
  | .initTag t id => (s.bufferDesc id).isValid = .invalid → s.hashTable.lookup t = none
  | _ => True

instance (s : PoolState N m) (a : Fin m × PoolCall N) : Decidable (TagAbsent s a) := by
  unfold TagAbsent
  split <;> infer_instance

theorem TagAbsent.initTag {a : Fin m × PoolCall N} (h : TagAbsent s a) {t : BufferTag}
    {id : Fin N} (hat : s.phase a.1 = .initTag t id)
    (hinvalid : (s.bufferDesc id).isValid = .invalid) : s.hashTable.lookup t = none := by
  unfold TagAbsent at h
  rw [hat] at h
  exact h hinvalid

/-- One step keeps the invariant, unless it writes a tag that is in the table. -/
theorem PoolInv.step [NeZero N] {a : Fin m × PoolCall N} (h : PoolInv s) (hok : TagAbsent s a)
    (hstep : poolStep s a = some s') : PoolInv s' := by
  cases poolEffect h hstep with
  | quiet id d p hdesc hphase htable htag hvalid hlock hinit hbefore hafter hreq hload =>
    exact h.quiet hdesc hphase htable htag hvalid hlock hinit hbefore hafter hreq hload
  | clean t id entry table hat hunlink hs' =>
    rw [hs']
    exact h.clean hat hunlink rfl
  | putFree t id entry hat hs' =>
    rw [hs']
    exact h.putFree hat
  | insert t id entry rest hat hinvalid habsent hfree hs' =>
    rw [hs']
    exact h.insert hat hinvalid habsent hfree
  | found t id b entry hat hinvalid hfound hs' =>
    rw [hok.initTag hat hinvalid] at hfound
    cases hfound

/-- On `HASH_FIND` the abandoned buffer keeps the tag of the buffer in the table. -/
theorem PoolInv.not_singleCopy_of_found (h : PoolInv s) {t : BufferTag} {id b : Fin N}
    {entry : Nat} (hinvalid : (s.bufferDesc id).isValid = .invalid)
    (hfound : s.hashTable.lookup t = some b) :
    ¬ SingleCopy ((s.setDesc id ((s.bufferDesc id).initTag t).leave).goto w
      (.readEntry t entry)) := by
  intro hsingle
  obtain ⟨hbt, hbv⟩ := h.named t b hfound
  have hne : b ≠ id := by
    rintro rfl
    exact hbv hinvalid
  have hdesc : Function.update s.bufferDesc id ((s.bufferDesc id).initTag t).leave b
      = s.bufferDesc b := Function.update_of_ne hne _ _
  have hself : Function.update s.bufferDesc id ((s.bufferDesc id).initTag t).leave id
      = ((s.bufferDesc id).initTag t).leave := Function.update_self ..
  refine hne (hsingle.1 b id ?_ ?_ ?_)
  · show (Function.update s.bufferDesc id _ b).isValid ≠ _
    rw [hdesc]; exact hbv
  · show (Function.update s.bufferDesc id _ id).isValid ≠ _
    rw [hself]; simp [BufferDesc.leave, BufferDesc.setLock,
      BufferDesc.unPin, BufferDesc.initTag]
  · show (Function.update s.bufferDesc id _ b).bufferTag
      = (Function.update s.bufferDesc id _ id).bufferTag
    rw [hdesc, hself]; exact hbt

/-- Every state of a run that writes absent tags only has a page in one buffer
at most, and the next step keeps it so exactly when it does the same. -/
theorem singleCopy_iff_tagAbsent [NeZero N] (getHashKey : BufferTag → Nat) {s : PoolState N m}
    {as : List (Fin m × PoolCall N)}
    (hok : Along poolStep TagAbsent (createBufferPool N m getHashKey) as)
    (hrun : run poolStep (createBufferPool N m getHashKey) as = some s) :
    SingleCopy s ∧ ∀ a s', poolStep s a = some s' → (SingleCopy s' ↔ TagAbsent s a) := by
  have hinv : PoolInv s := run_invariant (fun hs ha hstep => hs.step ha hstep)
    (createBufferPool_inv getHashKey) hok hrun
  refine ⟨hinv.singleCopy, fun a s' hstep => ⟨fun hsingle => ?_, fun ha =>
    (hinv.step ha hstep).singleCopy⟩⟩
  unfold TagAbsent
  split
  · rename_i t id hat
    intro hinvalid
    cases hlookup : s.hashTable.lookup t with
    | none => rfl
    | some b =>
      cases poolEffect hinv hstep with
      | quiet _ _ _ _ _ _ _ _ _ hinit => exact absurd hinvalid (hinit t id hat)
      | clean t' id' _ _ hat' | putFree t' id' _ hat' => rw [hat] at hat'; cases hat'
      | insert t' id' entry rest hat' _ habsent =>
        rw [hat] at hat'
        cases hat'
        rw [hlookup] at habsent
        cases habsent
      | found t' id' b' entry hat' hinvalid' hfound hs' =>
        rw [hs'] at hsingle
        exact absurd hsingle (hinv.not_singleCopy_of_found hinvalid' hfound)
  · trivial

/-- Two workers that ask for page 1 of the same table one after the other. -/
def readTwice : List (Fin 2 × PoolCall 8) :=
  (0, .readPage 1 1 .main) :: List.replicate 5 (0, .next true) ++
    (1, .readPage 1 1 .main) :: List.replicate 2 (1, .next true)

theorem singleCopy_readTwice :
    SingleCopy (exec poolStep (createBufferPool 8 2 fun _ => 0) readTwice) ∧
      ∀ a s', poolStep (exec poolStep (createBufferPool 8 2 fun _ => 0) readTwice) a =
        some s' →
        (SingleCopy s' ↔
          TagAbsent (exec poolStep (createBufferPool 8 2 fun _ => 0) readTwice) a) :=
  singleCopy_iff_tagAbsent (fun _ => 0) (by decide) (run_exec (by decide))

/-- Two workers that both miss page 1, both take an empty buffer and both go
through `INIT_TAG`. -/
def missTogether : List (Fin 2 × PoolCall 8) :=
  (0, .readPage 1 1 .main) :: (1, .readPage 1 1 .main) ::
    (List.replicate 4 [(0, .next true), (1, .next true)]).flatten

/-- Buffers 1 and 2 end with the same tag, neither of them invalid. -/
theorem not_singleCopy_missTogether :
    (run poolStep (createBufferPool 8 2 fun _ => 0) missTogether).isSome = true ∧
      ¬ SingleCopy (exec poolStep (createBufferPool 8 2 fun _ => 0) missTogether) := by
  refine ⟨by decide, fun hsingle => ?_⟩
  exact absurd (hsingle.1 1 2 (by decide) (by decide) (by decide)) (by decide)

end Toadb
