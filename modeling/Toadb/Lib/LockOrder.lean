/-
Toadb.Lib.LockOrder — locks that are taken in order.

A worker waits for a lock when its next action acquires it, it does not have it and there is
room for it in its table: a lock it has is counted and never waited for. With an order on
the locks in which every worker only asks for a lock above those it has, no workers wait
for each other in a cycle (`no_waitCycle`).

`Ordered` says that a trace asks for its locks in order, and `Steady` that it also
leaves the table as it was. The rules for them follow those of `Moves`.
-/
import Toadb.Lib.HeldLocks
import Mathlib.Logic.Relation
import Mathlib.Order.Basic

namespace HeldLocks

/-! ## Waiting -/

section Waiting

variable {ι L R : Type} [Preorder R] {waits holds : ι → L → Prop}

/-- `i` waits for a lock that `j` has. -/
def WaitsOn (waits holds : ι → L → Prop) (i j : ι) : Prop := ∃ l, waits i l ∧ holds j l

/-- Along a chain of waits the locks that are waited for grow. -/
theorem rank_of_chain (rank : L → R) (hunique : ∀ i l l', waits i l → waits i l' → l = l')
    (horder : ∀ i l, waits i l →
      (∀ l', holds i l' → rank l' < rank l) ∨ ∀ j, holds j l → ∀ l', ¬ waits j l')
    {i j k : ι} (h : Relation.TransGen (WaitsOn waits holds) i j)
    {l l' l'' : L} (hl : waits i l)
    (hl' : waits j l') (hk : holds k l') (hl'' : waits k l'') : rank l < rank l' := by
  have hstep : ∀ {i j k : ι} {l l' l'' : L}, WaitsOn waits holds i j →
      waits i l → waits j l' →
      holds k l' → waits k l'' → rank l < rank l' := by
    intro i j k l l' l'' ⟨l₁, hl₁, hheld⟩ hl hl' hk hl''
    obtain rfl := hunique i l l₁ hl hl₁
    rcases horder j l' hl' with hrank | hnone
    · exact hrank l hheld
    · exact absurd hl'' (hnone k hk l'')
  induction h generalizing k l' l'' with
  | single hwaits => exact hstep hwaits hl hl' hk hl''
  | @tail j j' hchain hwaits ih =>
    obtain ⟨l₁, hl₁, hj'⟩ := hwaits
    exact lt_trans (ih hl₁ hj' hl') (hstep ⟨l₁, hl₁, hj'⟩ hl₁ hl' hk hl'')

/-- Workers that ask for locks in order do not wait for each other in a cycle. A lock out of
order is one that only workers have that do not wait. -/
theorem no_waitCycle (rank : L → R) (hunique : ∀ i l l', waits i l → waits i l' → l = l')
    (horder : ∀ i l, waits i l →
      (∀ l', holds i l' → rank l' < rank l) ∨ ∀ j, holds j l → ∀ l', ¬ waits j l') (i : ι) :
    ¬ Relation.TransGen (WaitsOn waits holds) i i := by
  intro hcycle
  obtain ⟨k, ⟨l, hl, hheld⟩, hrest⟩ := Relation.TransGen.head'_iff.mp hcycle
  have hwaits : ∃ l', waits k l' := by
    rcases Relation.ReflTransGen.cases_head hrest with rfl | ⟨k', ⟨l', hl', -⟩, -⟩
    · exact ⟨l, hl⟩
    · exact ⟨l', hl'⟩
  obtain ⟨l', hl'⟩ := hwaits
  exact lt_irrefl _ (rank_of_chain rank hunique horder hcycle hl hl hheld hl')

end Waiting

/-! ## Traces -/

variable {L P : Type} [DecidableEq L] [DecidableEq P] {cap : Nat}
  {allowed : List L → L → Prop}
  {ok ok' : List (Entry L) → Prop} {k k' : Nat} {tr tr' : List (Action L P)}

/-- The locks of a table. -/
def locks (t : List (Entry L)) : List L := t.map (·.lock)

/-- A table with room that does not have the lock. -/
def Lacks (cap : Nat) (t : List (Entry L)) (l : L) : Prop := t.length < cap ∧ l ∉ locks t

instance (cap : Nat) (t : List (Entry L)) (l : L) : Decidable (Lacks cap t l) := by
  unfold Lacks
  infer_instance

/-- Every lock the trace asks for is allowed with the locks that are held then. -/
def Ordered (cap : Nat) (allowed : List L → L → Prop) : Held L P → List (Action L P) → Prop
  | _, [] => True
  | s, a :: tr =>
      (∀ l m, a = .acquire l m → Lacks cap s.table l → allowed (locks s.table) l) ∧
        Ordered cap allowed (step cap s a) tr

theorem ordered_append {s : Held L P} :
    Ordered cap allowed s (tr ++ tr') ↔
      Ordered cap allowed s tr ∧ Ordered cap allowed (run cap s tr) tr' := by
  induction tr generalizing s with
  | nil => simp [Ordered]
  | cons a tr ih => simp [Ordered, ih, and_assoc]

theorem ordered_singleton {s : Held L P} {a : Action L P} (h : ∀ l m, a ≠ .acquire l m) :
    Ordered cap allowed s [a] :=
  ⟨fun l m heq => absurd heq (h l m), trivial⟩

/-- With room for `k` locks more in an `ok` table, the trace is in order and leaves the table
as it was. -/
def Steady (cap : Nat) (allowed : List L → L → Prop) (ok : List (Entry L) → Prop) (k : Nat)
    (tr : List (Action L P)) : Prop :=
  ∀ s : Held L P, ok s.table → s.table.length + k ≤ cap →
    Ordered cap allowed s tr ∧ (run cap s tr).table = s.table

theorem Steady.nil : Steady cap allowed ok k ([] : List (Action L P)) :=
  fun _ _ _ => ⟨trivial, rfl⟩

theorem Steady.append (h : Steady cap allowed ok k tr) (h' : Steady cap allowed ok k tr') :
    Steady cap allowed ok k (tr ++ tr') := by
  intro s hok hroom
  obtain ⟨hord, htable⟩ := h s hok hroom
  obtain ⟨hord', htable'⟩ := h' (run cap s tr) (htable.symm ▸ hok) (htable.symm ▸ hroom)
  exact ⟨ordered_append.mpr ⟨hord, hord'⟩, by rw [run_append, htable', htable]⟩

theorem Steady.mono (h : Steady cap allowed ok k tr) (hk : k ≤ k') :
    Steady cap allowed ok k' tr :=
  fun s hok hroom => h s hok (by omega)

theorem Steady.weaken (h : Steady cap allowed ok k tr) (hok : ∀ t, ok' t → ok t) :
    Steady cap allowed ok' k tr :=
  fun s hs => h s (hok s.table hs)

/-- The trace between an acquire and its release. -/
theorem Steady.lock {l : L} {m : Mode} (h : Steady cap allowed ok' k tr)
    (hok : ∀ t, ok t → (l ∈ locks t ∨ allowed (locks t) l) ∧
      ∃ t', acquireEntry l m t = some t' ∧ ok' t') :
    Steady cap allowed ok (k + 1) (.acquire l m :: (tr ++ [.release l])) := by
  intro s hs hroom
  obtain ⟨hallowed, t, ht, ht'⟩ := hok s.table hs
  have hstep : step cap s (.acquire l m) = { s with table := t } := by
    simp only [step, if_neg (show ¬ cap ≤ s.table.length by omega), ht]
  have hlength := acquireEntry_length ht
  obtain ⟨hord, htable⟩ := h { s with table := t } ht' (by dsimp only; omega)
  have hrelease : (step cap (run cap { s with table := t } tr) (.release l)).table =
      s.table := by
    simp [step, htable, releaseEntry_acquireEntry ht]
  refine ⟨⟨?_, ?_⟩, ?_⟩
  · intro l' m' heq hlacks
    cases heq
    exact hallowed.resolve_left hlacks.2
  · rw [hstep]
    exact ordered_append.mpr ⟨hord, ordered_singleton (by simp)⟩
  · rw [run_cons, hstep, run_append]
    exact hrelease

theorem acquireEntry_of_not_mem {l : L} (m : Mode) {t : List (Entry L)} (h : l ∉ locks t) :
    ∃ t', acquireEntry l m t = some t' := by
  induction t with
  | nil => exact ⟨_, rfl⟩
  | cons e es ih =>
    rw [locks, List.map_cons, List.mem_cons, not_or] at h
    obtain ⟨t', ht'⟩ := ih h.2
    exact ⟨e :: t', by simp [acquireEntry, Ne.symm h.1, ht']⟩

theorem releaseEntry_of_not_mem {l : L} {t : List (Entry L)} (h : l ∉ locks t) :
    releaseEntry l t = none := by
  induction t with
  | nil => rfl
  | cons e es ih =>
    rw [locks, List.map_cons, List.mem_cons, not_or] at h
    simp [releaseEntry, Ne.symm h.1, ih h.2]

/-- A lock that is not there, given back at once. In a full table it is refused, and giving it
back changes nothing. -/
theorem Steady.brief {l : L} (m : Mode) (h : ∀ t, ok t → l ∉ locks t ∧ allowed (locks t) l) :
    Steady cap allowed ok k [(.acquire l m : Action L P), .release l] := by
  intro s hs _
  obtain ⟨hl, hallowed⟩ := h s.table hs
  have hord : Ordered cap allowed s [(.acquire l m : Action L P), .release l] := by
    refine ⟨fun l' m' heq _ => ?_, ordered_singleton (by simp)⟩
    cases heq
    exact hallowed
  refine ⟨hord, ?_⟩
  obtain ⟨t, ht⟩ := acquireEntry_of_not_mem m hl
  by_cases hfull : cap ≤ s.table.length
  · simp [step, hfull, releaseEntry_of_not_mem hl]
  · simp [step, hfull, ht, releaseEntry_acquireEntry ht]

theorem steady_pin (a : P) : Steady cap allowed ok 0 [(.pin a : Action L P)] :=
  fun _ _ _ => ⟨ordered_singleton (by simp), rfl⟩

theorem steady_unpin (a : P) : Steady cap allowed ok 0 [(.unpin a : Action L P)] := by
  refine fun s _ _ => ⟨ordered_singleton (by simp), ?_⟩
  simp only [run_cons, run_nil, step]
  split <;> rfl

/-- A release of a lock that is not there. -/
theorem steady_release {l : L} (h : ∀ t, ok t → l ∉ locks t) :
    Steady cap allowed ok 0 [(.release l : Action L P)] := by
  refine fun s hs _ => ⟨ordered_singleton (by simp), ?_⟩
  simp [step, releaseEntry_of_not_mem (h s.table hs)]

/-! ## A list of locks -/

theorem releaseEntry_length {l : L} {t t' : List (Entry L)} (h : releaseEntry l t = some t') :
    t'.length ≤ t.length := by
  induction t generalizing t' with
  | nil => cases h
  | cons e es ih =>
    simp only [releaseEntry] at h
    split at h
    · split at h <;> cases h <;> simp
    · obtain ⟨es', hes, rfl⟩ := Option.map_eq_some_iff.mp h
      simpa using ih hes

/-- The table never has more locks than there is room for. -/
theorem length_run_le {s : Held L P} (h : s.table.length ≤ cap) (tr : List (Action L P)) :
    (run cap s tr).table.length ≤ cap := by
  induction tr generalizing s with
  | nil => exact h
  | cons a tr ih =>
    refine ih ?_
    cases a with
    | acquire l m =>
      simp only [step]
      split
      · exact h
      · split
        · rename_i t ht
          have := acquireEntry_length ht
          dsimp only
          omega
        · exact h
    | release l =>
      simp only [step]
      split
      · rename_i t ht
        exact (releaseEntry_length ht).trans h
      · exact h
    | pin a => exact h
    | unpin a =>
      simp only [step]
      split <;> exact h

/-- A lock is in the table at most as often as it was asked for. -/
theorem heldCount_acquireAll (s : Held L P) (m : Mode) (ls : List L) (l : L) :
    heldCount l (run cap s (acquireAll m ls)).table ≤ heldCount l s.table + ls.count l := by
  induction ls generalizing s with
  | nil => simp [acquireAll]
  | cons l' ls ih =>
    have hstep : heldCount l (step cap s (.acquire l' m)).table ≤
        heldCount l s.table + if l = l' then 1 else 0 := by
      simp only [step]
      split
      · omega
      · split
        · rename_i t ht
          exact le_of_eq (heldCount_acquireEntry ht l)
        · omega
    have hrest := ih (step cap s (.acquire l' m))
    have hcount : (l' :: ls).count l = ls.count l + if l = l' then 1 else 0 := by
      rw [List.count_cons]
      by_cases hl : l = l'
      · simp [hl]
      · simp [hl, Ne.symm hl]
    rw [acquireAll, List.map_cons, run_cons, ← acquireAll]
    omega

theorem table_nil_of_heldCount {t : List (Entry L)}
    (h : ∀ l, heldCount l t = 0) : t = [] := by
  cases t with
  | nil => rfl
  | cons e es =>
    have hpos := e.pos
    have := h e.lock
    simp [heldCount] at this
    omega

/-- Giving back all that was asked for empties the table. -/
theorem table_releaseAll {s : Held L P} {ls : List L}
    (h : ∀ l, heldCount l s.table ≤ ls.count l) :
    (run cap s (releaseAll ls)).table = [] := by
  induction ls generalizing s with
  | nil => exact table_nil_of_heldCount fun l => Nat.le_zero.mp (h l)
  | cons l ls ih =>
    rw [releaseAll, List.map_cons, run_cons, ← releaseAll]
    refine ih fun l' => ?_
    have hl' := h l'
    rw [List.count_cons] at hl'
    by_cases hheld : 0 < heldCount l s.table
    · obtain ⟨t, ht, hcount⟩ := releaseEntry_of_held hheld
      have hstep : (step cap s (.release l : Action L P)).table = t := by simp [step, ht]
      have := hcount l'
      rw [hstep]
      by_cases hl : l' = l
      · subst hl
        simp at hl' this
        omega
      · simp [hl, Ne.symm hl] at hl' this
        omega
    · have hmem : l ∉ locks s.table := fun hmem => hheld (heldCount_pos.mpr hmem)
      have hstep : (step cap s (.release l : Action L P)).table = s.table := by
        simp [step, releaseEntry_of_not_mem hmem]
      rw [hstep]
      by_cases hl : l' = l
      · subst hl
        omega
      · simpa [Ne.symm hl] using hl'

end HeldLocks
