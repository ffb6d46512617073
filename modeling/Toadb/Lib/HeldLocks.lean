/-
Toadb.Lib.HeldLocks — a worker's own table of held locks.

The table has room for `cap` locks. A lock that is taken again is counted, one
that is in the table in another mode is refused, and with a full table every
acquire is refused, also that of a lock the worker has. A release of a lock that is not
in the table is a fault. Pins are counted beside it.

A trace is a list of such actions. `Moves` says what a trace does when there is room for
it: the table ends as it began, without a fault, and some pins are replaced by
others. The rules compose traces and put them between an acquire and its release. The
second part is the other direction: `run_net` counts, and a trace that has more releases
than acquires that succeeded has a fault.
-/
import Mathlib.Data.Multiset.AddSub
import Mathlib.Data.Finset.Card
import Mathlib.Data.List.Induction
import Mathlib.Data.List.Nodup
import Mathlib.Algebra.Order.Ring.Int

namespace HeldLocks

/-! ## The table -/

/-- Shared and exclusive. -/
inductive Mode where
  | read
  | write
  deriving DecidableEq, Repr

/-- A held lock. -/
structure Entry (L : Type) where
  lock : L
  mode : Mode
  cnt : Nat
  pos : 0 < cnt
  deriving DecidableEq

variable {L P : Type} [DecidableEq L] [DecidableEq P]

/-- The table with the lock once more, unless it is held in another mode. -/
def acquireEntry (l : L) (m : Mode) : List (Entry L) → Option (List (Entry L))
  | [] => some [⟨l, m, 1, Nat.one_pos⟩]
  | e :: es =>
      if e.lock = l then
        if e.mode = m then some (⟨l, m, e.cnt + 1, e.cnt.succ_pos⟩ :: es) else none
      else (acquireEntry l m es).map (e :: ·)

/-- The table with the lock once less, unless it is not held. -/
def releaseEntry (l : L) : List (Entry L) → Option (List (Entry L))
  | [] => none
  | e :: es =>
      if e.lock = l then
        if h : 1 < e.cnt then some (⟨e.lock, e.mode, e.cnt - 1, Nat.sub_pos_of_lt h⟩ :: es)
        else some es
      else (releaseEntry l es).map (e :: ·)

/-- The locks and pins of a worker, and how often it gave back what it did not have. -/
structure Held (L P : Type) where
  table : List (Entry L)
  pins : Multiset P
  faults : Nat
  deriving DecidableEq

/-- What a worker does with locks and pins. -/
inductive Action (L P : Type) where
  | acquire (lock : L) (mode : Mode)
  | release (lock : L)
  | pin (page : P)
  | unpin (page : P)
  deriving DecidableEq

/-- One action, with room for `cap` locks. -/
def step (cap : Nat) (s : Held L P) : Action L P → Held L P
  | .acquire l m =>
      if cap ≤ s.table.length then s
      else
        match acquireEntry l m s.table with
        | some table => { s with table := table }
        | none => s
  | .release l =>
      match releaseEntry l s.table with
      | some table => { s with table := table }
      | none => { s with faults := s.faults + 1 }
  | .pin p => { s with pins := p ::ₘ s.pins }
  | .unpin p =>
      if p ∈ s.pins then { s with pins := s.pins.erase p }
        else { s with faults := s.faults + 1 }

/-- A trace of actions. -/
def run (cap : Nat) (s : Held L P) (tr : List (Action L P)) : Held L P :=
  tr.foldl (step cap) s

@[simp] theorem run_nil (cap : Nat) (s : Held L P) : run cap s [] = s := rfl

@[simp] theorem run_cons (cap : Nat) (s : Held L P) (a : Action L P)
    (tr : List (Action L P)) :
    run cap s (a :: tr) = run cap (step cap s a) tr := rfl

theorem run_append (cap : Nat) (s : Held L P) (tr tr' : List (Action L P)) :
    run cap s (tr ++ tr') = run cap (run cap s tr) tr' := List.foldl_append ..

/-- What was acquired can be released, and nothing is left of it. -/
theorem releaseEntry_acquireEntry {l : L} {m : Mode} {t t' : List (Entry L)}
    (h : acquireEntry l m t = some t') : releaseEntry l t' = some t := by
  induction t generalizing t' with
  | nil =>
    simp only [acquireEntry, Option.some.injEq] at h
    simp [← h, releaseEntry]
  | cons e es ih =>
    simp only [acquireEntry] at h
    split at h
    · rename_i hl
      split at h
      · rename_i hm
        obtain ⟨lock, mode, cnt, pos⟩ := e
        subst hl hm
        cases h
        simp [releaseEntry, pos]
      · cases h
    · rename_i hl
      obtain ⟨es', hes, rfl⟩ := Option.map_eq_some_iff.mp h
      simp [releaseEntry, hl, ih hes]

theorem acquireEntry_append {l : L} (m : Mode) {pre : List (Entry L)}
    (h : l ∉ pre.map (·.lock)) (es : List (Entry L)) : acquireEntry l m (pre ++ es) =
      (acquireEntry l m es).map (pre ++ ·) := by
  induction pre with
  | nil => simp
  | cons e pre ih =>
    rw [List.map_cons, List.mem_cons, not_or] at h
    simp [acquireEntry, Ne.symm h.1, ih h.2, Function.comp_def]

theorem releaseEntry_append {l : L} {pre : List (Entry L)} (h : l ∉ pre.map (·.lock))
    (es : List (Entry L)) : releaseEntry l (pre ++ es) =
      (releaseEntry l es).map (pre ++ ·) := by
  induction pre with
  | nil => simp
  | cons e pre ih =>
    rw [List.map_cons, List.mem_cons, not_or] at h
    simp [releaseEntry, Ne.symm h.1, ih h.2, Function.comp_def]

theorem acquireEntry_length {l : L} {m : Mode} {t t' : List (Entry L)}
    (h : acquireEntry l m t = some t') : t'.length ≤ t.length + 1 := by
  induction t generalizing t' with
  | nil =>
    simp only [acquireEntry, Option.some.injEq] at h
    simp [← h]
  | cons e es ih =>
    simp only [acquireEntry] at h
    split at h
    · split at h
      · cases h
        simp
      · cases h
    · obtain ⟨es', hes, rfl⟩ := Option.map_eq_some_iff.mp h
      simpa using ih hes

/-- Every lock is held in the mode it has. -/
def InMode (mode : L → Mode) (t : List (Entry L)) : Prop := ∀ e ∈ t, e.mode = mode e.lock

theorem acquireEntry_of_inMode (mode : L → Mode) (l : L) {t : List (Entry L)}
    (h : InMode mode t) : ∃ t', acquireEntry l (mode l) t = some t' ∧ InMode mode t' := by
  induction t with
  | nil => exact ⟨_, rfl, by simp [InMode]⟩
  | cons e es ih =>
    obtain ⟨he, hes⟩ := List.forall_mem_cons.mp h
    obtain ⟨es', heq, hmode⟩ := ih hes
    by_cases hl : e.lock = l
    · subst hl
      refine ⟨⟨e.lock, mode e.lock, e.cnt + 1, e.cnt.succ_pos⟩ :: es, ?_, ?_⟩
      · simp [acquireEntry, he]
      · exact List.forall_mem_cons.mpr ⟨rfl, hes⟩
    · exact ⟨e :: es', by simp [acquireEntry, hl, heq], List.forall_mem_cons.mpr ⟨he, hmode⟩⟩

/-! ## What a trace does when there is room -/

variable {cap : Nat} {ok ok' : List (Entry L) → Prop} {k k' : Nat}
  {tr tr' : List (Action L P)}
  {p q r : Multiset P}

/-- With room for `k` locks more in an `ok` table, the trace replaces the pins `p` by `q` and
changes nothing else. -/
def Moves (cap : Nat) (ok : List (Entry L) → Prop) (k : Nat) (tr : List (Action L P))
    (p q : Multiset P) : Prop :=
  ∀ (s : Held L P) (rest : Multiset P), ok s.table → s.table.length + k ≤ cap →
    s.pins = p + rest → run cap s tr = { s with pins := q + rest }

theorem Moves.nil (p : Multiset P) : Moves cap ok k ([] : List (Action L P)) p p := by
  intro s rest _ _ hpins
  rw [← hpins]
  rfl

theorem Moves.append (h : Moves cap ok k tr p q) (h' : Moves cap ok k tr' q r) :
    Moves cap ok k (tr ++ tr') p r := by
  intro s rest hok hroom hpins
  rw [run_append, h s rest hok hroom hpins]
  exact h' _ rest hok hroom rfl

theorem Moves.mono (h : Moves cap ok k tr p q) (hk : k ≤ k') : Moves cap ok k' tr p q :=
  fun s rest hok hroom => h s rest hok (by omega)

theorem Moves.weaken (h : Moves cap ok k tr p q) (hok : ∀ t, ok' t → ok t) :
    Moves cap ok' k tr p q :=
  fun s rest hs => h s rest (hok s.table hs)

/-- Pins the trace does not touch. -/
theorem Moves.frame (h : Moves cap ok k tr p q) (r : Multiset P) :
    Moves cap ok k tr (p + r) (q + r) := by
  intro s rest hok hroom hpins
  rw [Multiset.add_assoc] at hpins ⊢
  exact h s (r + rest) hok hroom hpins

/-- The trace between an acquire and its release. -/
theorem Moves.lock {l : L} {m : Mode} (h : Moves cap ok' k tr p q)
    (hok : ∀ t, ok t → ∃ t', acquireEntry l m t = some t' ∧ ok' t') :
    Moves cap ok (k + 1) (.acquire l m :: (tr ++ [.release l])) p q := by
  intro s rest hs hroom hpins
  obtain ⟨t, ht, ht'⟩ := hok s.table hs
  have hstep : step cap s (.acquire l m) = { s with table := t } := by
    simp only [step, if_neg (show ¬ cap ≤ s.table.length by omega), ht]
  have hlength := acquireEntry_length ht
  rw [run_cons, hstep, run_append,
    h { s with table := t } rest ht' (by dsimp only; omega) hpins]
  simp [step, releaseEntry_acquireEntry ht]

theorem moves_pin (a : P) : Moves cap ok 0 [.pin a] 0 {a} := by
  intro s rest _ _ hpins
  simp only [run_cons, run_nil, step, hpins, Multiset.zero_add, Multiset.singleton_add]

theorem moves_unpin (a : P) : Moves cap ok 0 [.unpin a] {a} 0 := by
  intro s rest _ _ hpins
  simp [step, hpins]

/-- The trace of a worker that holds nothing. -/
theorem Moves.run (h : Moves cap ok k tr p q) (hok : ok []) (hk : k ≤ cap) (rest : Multiset P)
    (faults : Nat) : HeldLocks.run cap ⟨[], p + rest, faults⟩ tr = ⟨[], q + rest, faults⟩ :=
  h ⟨[], p + rest, faults⟩ rest hok (by simpa using hk) rfl

/-! ## Counting -/

/-- The number of times the locks of a table are held. -/
def total (t : List (Entry L)) : Nat := (t.map (·.cnt)).sum

omit [DecidableEq L] in
@[simp] theorem total_nil : total ([] : List (Entry L)) = 0 := rfl

omit [DecidableEq L] in
@[simp] theorem total_cons (e : Entry L) (t : List (Entry L)) :
    total (e :: t) = e.cnt + total t := by
  simp [total]

theorem total_acquireEntry {l : L} {m : Mode} {t t' : List (Entry L)}
    (h : acquireEntry l m t = some t') : total t' = total t + 1 := by
  induction t generalizing t' with
  | nil =>
    simp only [acquireEntry, Option.some.injEq] at h
    simp [← h]
  | cons e es ih =>
    simp only [acquireEntry] at h
    split at h
    · split at h
      · cases h
        simp
        omega
      · cases h
    · obtain ⟨es', hes, rfl⟩ := Option.map_eq_some_iff.mp h
      have := ih hes
      simp
      omega

theorem total_releaseEntry {l : L} {t t' : List (Entry L)} (h : releaseEntry l t = some t') :
    total t' + 1 = total t := by
  induction t generalizing t' with
  | nil => cases h
  | cons e es ih =>
    have hpos := e.pos
    simp only [releaseEntry] at h
    split at h
    · split at h
      · cases h
        simp
        omega
      · cases h
        simp
        omega
    · obtain ⟨es', hes, rfl⟩ := Option.map_eq_some_iff.mp h
      have := ih hes
      simp
      omega

/-- Releases less acquires. -/
def Action.net : Action L P → Int
  | .acquire _ _ => -1
  | .release _ => 1
  | _ => 0

/-- Pins less unpins. -/
def Action.pinNet : Action L P → Int
  | .pin _ => 1
  | .unpin _ => -1
  | _ => 0

def net (tr : List (Action L P)) : Int := (tr.map Action.net).sum

def pinNet (tr : List (Action L P)) : Int := (tr.map Action.pinNet).sum

section
omit [DecidableEq L] [DecidableEq P]

@[simp] theorem net_nil : net ([] : List (Action L P)) = 0 := rfl

@[simp] theorem net_cons (a : Action L P) (tr : List (Action L P)) :
    net (a :: tr) = a.net + net tr := by
  simp [net]

@[simp] theorem net_append (tr tr' : List (Action L P)) :
    net (tr ++ tr') = net tr + net tr' := by
  simp [net]

@[simp] theorem pinNet_nil : pinNet ([] : List (Action L P)) = 0 := rfl

@[simp] theorem pinNet_cons (a : Action L P) (tr : List (Action L P)) :
    pinNet (a :: tr) = a.pinNet + pinNet tr := by
  simp [pinNet]

@[simp] theorem pinNet_append (tr tr' : List (Action L P)) :
    pinNet (tr ++ tr') = pinNet tr + pinNet tr' := by
  simp [pinNet]

@[simp] theorem net_acquire (l : L) (m : Mode) : (.acquire l m : Action L P).net = -1 := rfl
@[simp] theorem net_release (l : L) : (.release l : Action L P).net = 1 := rfl
@[simp] theorem net_pin (a : P) : (.pin a : Action L P).net = 0 := rfl
@[simp] theorem net_unpin (a : P) : (.unpin a : Action L P).net = 0 := rfl
@[simp] theorem pinNet_acquire (l : L) (m : Mode) :
    (.acquire l m : Action L P).pinNet = 0 := rfl
@[simp] theorem pinNet_release (l : L) : (.release l : Action L P).pinNet = 0 := rfl
@[simp] theorem pinNet_pin (a : P) : (.pin a : Action L P).pinNet = 1 := rfl
@[simp] theorem pinNet_unpin (a : P) : (.unpin a : Action L P).pinNet = -1 := rfl

end

/-- An action that fails is a fault or keeps a lock less. -/
theorem step_net (cap : Nat) (s : Held L P) (a : Action L P) :
    (s.faults : Int) - total s.table + a.net ≤
      (step cap s a).faults - total (step cap s a).table := by
  cases a with
  | acquire l m =>
    rw [net_acquire]
    simp only [step]
    split
    · omega
    · split
      · rename_i t ht
        have := total_acquireEntry ht
        dsimp only
        omega
      · omega
  | release l =>
    rw [net_release]
    simp only [step]
    split
    · rename_i t ht
      have := total_releaseEntry ht
      dsimp only
      omega
    · dsimp only
      omega
  | pin p => simp [step]
  | unpin p =>
    rw [net_unpin]
    simp only [step]
    split
    · simp
    · dsimp only
      omega

theorem run_net (cap : Nat) (s : Held L P) (tr : List (Action L P)) :
    (s.faults : Int) - total s.table + net tr ≤ (run cap s tr).faults - total
    (run cap s tr).table := by
  induction tr generalizing s with
  | nil => simp
  | cons a tr ih =>
    have hstep := step_net cap s a
    have hrun := ih (step cap s a)
    simp only [net_cons, run_cons]
    omega

theorem faults_step (cap : Nat) (s : Held L P) (a : Action L P) :
    s.faults ≤ (step cap s a).faults := by
  cases a with
  | acquire l m =>
    simp only [step]
    split
    · simp
    · split <;> simp
  | release l =>
    simp only [step]
    split <;> simp
  | pin p => simp [step]
  | unpin p =>
    simp only [step]
    split <;> simp

theorem faults_run (cap : Nat) (s : Held L P) (tr : List (Action L P)) :
    s.faults ≤ (run cap s tr).faults := by
  induction tr generalizing s with
  | nil => simp
  | cons a tr ih => exact Nat.le_trans (faults_step cap s a) (ih _)

/-- More releases than acquires. -/
theorem faults_of_net (cap : Nat) (pins : Multiset P) (faults : Nat) (hnet : 0 < net tr) :
    faults < (run cap ⟨[], pins, faults⟩ tr).faults := by
  have h := run_net cap ⟨[], pins, faults⟩ tr
  dsimp only at h
  rw [total_nil] at h
  omega

/-- As many releases as acquires, one of which was refused because the table was full. -/
theorem faults_of_full {l : L} {m : Mode} (pins : Multiset P) (faults : Nat)
    (hfull : cap ≤ (run cap ⟨[], pins, faults⟩ tr).table.length)
    (hnet : 0 ≤ net (tr ++ .acquire l m :: tr')) :
    faults < (run cap ⟨[], pins, faults⟩ (tr ++ .acquire l m :: tr')).faults := by
  have hbefore := run_net cap ⟨[], pins, faults⟩ tr
  have hafter := run_net cap (run cap ⟨[], pins, faults⟩ tr) tr'
  have hstep : step cap (run cap ⟨[], pins, faults⟩ tr) (.acquire l m) =
      run cap ⟨[], pins, faults⟩ tr := by
    simp only [step, if_pos hfull]
  rw [run_append, run_cons, hstep]
  dsimp only at hbefore
  rw [total_nil] at hbefore
  simp only [net_append, net_cons, net_acquire] at hnet
  omega

/-- Pins that are not given back. -/
theorem card_pins_run (cap : Nat) (s : Held L P) (tr : List (Action L P)) :
    (s.pins.card : Int) + pinNet tr ≤ (run cap s tr).pins.card := by
  induction tr generalizing s with
  | nil => simp
  | cons a tr ih =>
    have hrun := ih (step cap s a)
    have hstep : (s.pins.card : Int) + a.pinNet ≤ (step cap s a).pins.card := by
      cases a with
      | acquire l m =>
        simp only [step]
        split
        · simp
        · split <;> simp
      | release l =>
        simp only [step]
        split <;> simp
      | pin p => simp [step]
      | unpin p =>
        rw [pinNet_unpin]
        simp only [step]
        split
        · rename_i hp
          have hcard := Multiset.card_erase_add_one hp
          dsimp only
          omega
        · dsimp only
          omega
    simp only [pinNet_cons, run_cons]
    omega

/-! ## A list of locks -/

/-- The locks of a list are taken one after the other. -/
def acquireAll (m : Mode) (locks : List L) : List (Action L P) := locks.map (.acquire · m)

/-- And given back in the same order. -/
def releaseAll (locks : List L) : List (Action L P) := locks.map .release

omit [DecidableEq L] [DecidableEq P] in
theorem net_acquireAll (m : Mode) (locks : List L) :
    net (acquireAll m locks : List (Action L P)) = -locks.length := by
  induction locks with
  | nil => simp [acquireAll]
  | cons l locks ih =>
    simp only [acquireAll] at ih
    simp only [acquireAll, List.map_cons, net_cons, net_acquire, ih, List.length_cons]
    omega

omit [DecidableEq L] [DecidableEq P] in
theorem net_releaseAll (locks : List L) :
    net (releaseAll locks : List (Action L P)) = locks.length := by
  induction locks with
  | nil => simp [releaseAll]
  | cons l locks ih =>
    simp only [releaseAll] at ih
    simp only [releaseAll, List.map_cons, net_cons, net_release, ih, List.length_cons]
    omega

/-- How often a lock is held. -/
def heldCount (l : L) : List (Entry L) → Nat
  | [] => 0
  | e :: es => (if e.lock = l then e.cnt else 0) + heldCount l es

/-- The table has the locks of the list, each in mode `m` and as often as in the list. -/
structure Acquired (m : Mode) (locks : List L) (t : List (Entry L)) : Prop where
  inMode : ∀ e ∈ t, e.mode = m
  nodup : (t.map (·.lock)).Nodup
  count : ∀ l, heldCount l t = locks.count l

theorem heldCount_pos {l : L} {t : List (Entry L)} :
    0 < heldCount l t ↔ l ∈ t.map (·.lock) := by
  induction t with
  | nil => simp [heldCount]
  | cons e es ih =>
    have hpos := e.pos
    by_cases hl : e.lock = l
    · simp [heldCount, hl]
      omega
    · simp only [heldCount, if_neg hl, Nat.zero_add, ih, List.map_cons, List.mem_cons]
      exact (or_iff_right fun heq => hl heq.symm).symm

theorem heldCount_acquireEntry {l : L} {m : Mode} {t t' : List (Entry L)}
    (h : acquireEntry l m t = some t') (l' : L) :
    heldCount l' t' = heldCount l' t + if l' = l then 1 else 0 := by
  induction t generalizing t' with
  | nil =>
    simp only [acquireEntry, Option.some.injEq] at h
    simp [← h, heldCount, eq_comm]
  | cons e es ih =>
    simp only [acquireEntry] at h
    split at h
    · rename_i hl
      subst hl
      split at h
      · cases h
        by_cases hl' : l' = e.lock
        · simp [heldCount, hl']
          omega
        · simp [heldCount, hl', Ne.symm hl']
      · cases h
    · obtain ⟨es', hes, rfl⟩ := Option.map_eq_some_iff.mp h
      simp [heldCount, ih hes, Nat.add_assoc]

theorem releaseEntry_of_held {l : L} {t : List (Entry L)} (h : 0 < heldCount l t) :
    ∃ t', releaseEntry l t = some t' ∧
      ∀ l', heldCount l' t' + (if l' = l then 1 else 0) = heldCount l' t := by
  induction t with
  | nil => simp [heldCount] at h
  | cons e es ih =>
    have hpos := e.pos
    by_cases hl : e.lock = l
    · subst hl
      by_cases hcnt : 1 < e.cnt
      · refine ⟨⟨e.lock, e.mode, e.cnt - 1, Nat.sub_pos_of_lt hcnt⟩ :: es, by
          simp [releaseEntry, hcnt],
          fun l' => ?_⟩
        by_cases hl' : l' = e.lock
        · simp [heldCount, hl']
          omega
        · simp [heldCount, hl', Ne.symm hl']
      · refine ⟨es, by simp [releaseEntry, hcnt], fun l' => ?_⟩
        by_cases hl' : l' = e.lock
        · simp [heldCount, hl']
          omega
        · simp [heldCount, hl', Ne.symm hl']
    · simp only [heldCount, if_neg hl, Nat.zero_add] at h
      obtain ⟨es', hes, hcount⟩ := ih h
      refine ⟨e :: es', by simp [releaseEntry, hl, hes], fun l' => ?_⟩
      have := hcount l'
      simp only [heldCount]
      omega

theorem keys_acquireEntry {l : L} {m : Mode} {t t' : List (Entry L)}
    (h : acquireEntry l m t = some t') :
    t'.map (·.lock) = if l ∈ t.map (·.lock) then t.map (·.lock)
      else t.map (·.lock) ++ [l] := by
  induction t generalizing t' with
  | nil =>
    simp only [acquireEntry, Option.some.injEq] at h
    simp [← h]
  | cons e es ih =>
    simp only [acquireEntry] at h
    split at h
    · rename_i hl
      split at h
      · cases h
        simp [hl]
      · cases h
    · rename_i hl
      obtain ⟨es', hes, rfl⟩ := Option.map_eq_some_iff.mp h
      simp only [List.map_cons, ih hes, List.mem_cons, or_iff_right (Ne.symm hl)]
      split <;> simp

/-- A release adds no lock. -/
theorem keys_releaseEntry {l : L} {t t' : List (Entry L)} (h : releaseEntry l t = some t') :
    (t'.map (·.lock)).Sublist (t.map (·.lock)) := by
  induction t generalizing t' with
  | nil => cases h
  | cons e es ih =>
    simp only [releaseEntry] at h
    split at h
    · split at h
      · cases h
        exact .refl _
      · cases h
        exact .cons _ (.refl _)
    · obtain ⟨es', hes, rfl⟩ := Option.map_eq_some_iff.mp h
      exact (ih hes).cons_cons _

theorem Acquired.snoc {m : Mode} {locks : List L} {t : List (Entry L)}
    (h : Acquired m locks t)
    (l : L) : ∃ t', acquireEntry l m t = some t' ∧ Acquired m (locks ++ [l]) t' := by
  obtain ⟨t', ht', hmode⟩ := acquireEntry_of_inMode (fun _ => m) l h.inMode
  refine ⟨t', ht', hmode, ?_, fun l' => ?_⟩
  · rw [keys_acquireEntry ht']
    split
    · exact h.nodup
    · rename_i hl
      exact List.nodup_append.mpr ⟨h.nodup, by simp, by
        intro a ha b hb
        rw [List.mem_singleton.mp hb]
        rintro rfl
        exact hl ha⟩
  · rw [heldCount_acquireEntry ht', h.count, List.count_append, List.count_singleton]
    by_cases hl : l' = l
    · simp [hl]
    · simp [hl, Ne.symm hl]

/-- The table has one entry for each lock. -/
theorem Acquired.length {m : Mode} {locks : List L} {t : List (Entry L)}
    (h : Acquired m locks t) :
    t.length = locks.toFinset.card := by
  have hkeys : (t.map (·.lock)).toFinset = locks.toFinset := by
    ext l
    rw [List.mem_toFinset, List.mem_toFinset, ← heldCount_pos, h.count, List.count_pos_iff]
  rw [← hkeys, List.toFinset_card_of_nodup h.nodup, List.length_map]

/-- Either every lock of the list is acquired, or the table is full before. -/
theorem acquireAll_cases (m : Mode) (locks : List L) (pins : Multiset P) (faults : Nat) :
    (∃ t, run cap ⟨[], pins, faults⟩ (acquireAll m locks) = ⟨t, pins, faults⟩ ∧
      Acquired m locks t) ∨
      ∃ before l after t, locks = before ++ l :: after ∧
        run cap ⟨[], pins, faults⟩ (acquireAll m before) = ⟨t, pins, faults⟩ ∧
        Acquired m before t ∧ cap ≤ t.length := by
  induction locks using List.reverseRec with
  | nil => exact .inl ⟨[], rfl, by simp, by simp, by simp [heldCount]⟩
  | append_singleton locks l ih =>
    rcases ih with ⟨t, hrun, hacquired⟩ | ⟨before, l', after, t, rfl, hrun, hacquired, hfull⟩
    · by_cases hfull : cap ≤ t.length
      · exact .inr ⟨locks, l, [], t, rfl, hrun, hacquired, hfull⟩
      · obtain ⟨t', ht', hacquired'⟩ := hacquired.snoc l
        refine .inl ⟨t', ?_, hacquired'⟩
        rw [acquireAll, List.map_append, run_append, ← acquireAll, hrun]
        simp [step, hfull, ht']
    · exact .inr ⟨before, l', after ++ [l], t, by simp, hrun, hacquired, hfull⟩

/-- All locks of the table are given back. -/
theorem run_releaseAll {locks : List L} {t : List (Entry L)}
    (h : ∀ l, heldCount l t = locks.count l) (pins : Multiset P) (faults : Nat) :
    run cap ⟨t, pins, faults⟩ (releaseAll locks) = ⟨[], pins, faults⟩ := by
  induction locks generalizing t with
  | nil =>
    cases t with
    | nil => rfl
    | cons e es =>
      have hpos := e.pos
      have := h e.lock
      simp [heldCount] at this
      omega
  | cons l locks ih =>
    have hheld : 0 < heldCount l t := by simp [h]
    obtain ⟨t', ht', hcount⟩ := releaseEntry_of_held hheld
    have hstep : step cap ⟨t, pins, faults⟩ (.release l : Action L P) =
        ⟨t', pins, faults⟩ := by
      simp [step, ht']
    rw [releaseAll, List.map_cons, run_cons, hstep]
    refine ih fun l' => ?_
    have hcount' := hcount l'
    rw [h, List.count_cons] at hcount'
    by_cases hl : l' = l
    · subst hl
      simp at hcount'
      exact hcount'
    · simp [hl, Ne.symm hl] at hcount'
      exact hcount'

/-- With room for all locks but the last, every lock is acquired. -/
theorem acquireAll_of_room {m : Mode} {locks : List L}
    (hroom : locks.dropLast.toFinset.card < cap) (pins : Multiset P) (faults : Nat) :
    ∃ t, run cap ⟨[], pins, faults⟩ (acquireAll m locks) = ⟨t, pins, faults⟩ ∧
      Acquired m locks t := by
  refine (acquireAll_cases m locks pins faults).resolve_right ?_
  rintro ⟨before, l, after, t, rfl, -, hacquired, hfull⟩
  have hsub : before.toFinset ⊆ (before ++ l :: after).dropLast.toFinset := by
    intro a ha
    rw [List.mem_toFinset] at ha ⊢
    rw [List.dropLast_append_of_ne_nil (by simp)]
    exact List.mem_append_left _ ha
  have := Finset.card_le_card hsub
  rw [hacquired.length] at hfull
  omega

/-- Without it one is refused, and giving all of them back is a fault. -/
theorem faults_of_no_room {m : Mode} {locks : List L} (hlocks : locks ≠ [])
    (hroom : cap ≤ locks.dropLast.toFinset.card) (tr : List (Action L P))
    (hnet : 0 ≤ net (acquireAll m locks ++ tr)) (pins : Multiset P) (faults : Nat) :
    faults < (run cap ⟨[], pins, faults⟩ (acquireAll m locks ++ tr)).faults := by
  obtain ⟨before, l, after, t, heq, hrun, hfull⟩ : ∃ before l after t,
      locks = before ++ l :: after ∧
      run cap ⟨[], pins, faults⟩ (acquireAll m before : List (Action L P)) =
        ⟨t, pins, faults⟩ ∧
      cap ≤ t.length := by
    rcases acquireAll_cases m locks.dropLast pins faults with
      ⟨t, hrun, hacquired⟩ | ⟨before, l, after, t, heq, hrun, -, hfull⟩
    · exact ⟨locks.dropLast, locks.getLast hlocks, [], t,
        (List.dropLast_append_getLast hlocks).symm, hrun, hacquired.length ▸ hroom⟩
    · refine ⟨before, l, after ++ [locks.getLast hlocks], t, ?_, hrun, hfull⟩
      rw [← List.cons_append, ← List.append_assoc, ← heq, List.dropLast_append_getLast]
  have htrace : acquireAll m locks ++ tr =
      acquireAll m before ++ .acquire l m :: (acquireAll m after ++ tr) := by
    simp [heq, acquireAll]
  rw [htrace] at hnet ⊢
  exact faults_of_full pins faults (by rw [hrun]; exact hfull) hnet

end HeldLocks
