/-
Toadb.Lib.Cursor — functions with fuel, and cursors.

A loop that may not end is a function of a fuel: no result is "not enough fuel".
`Returns` is the answer it gives with every fuel from some point on, `NoResult`
that it gives none. A cursor is
a state with a function that hands out the next item and the state after it,
or the end. `Yields` is the list of items a cursor hands out, in order, up to
the end and with the state it ends in; `collect` is the loop that calls it.
-/
import Mathlib.Data.List.Basic
import Mathlib.Order.Basic

namespace Cursor

universe u v w
variable {σ : Type u} {α : Type v} {β : Type w}

/-! ## Fuel -/

/-- With enough fuel the answer is `r`. -/
def Returns (f : Nat → Option α) (r : α) : Prop := ∃ k, ∀ fuel, k ≤ fuel → f fuel = some r

variable {f : Nat → Option α} {r r' : α}

theorem Returns.unique (h : Returns f r) (h' : Returns f r') : r = r' := by
  obtain ⟨k, hk⟩ := h
  obtain ⟨k', hk'⟩ := h'
  have heq := hk (max k k') (Nat.le_max_left ..)
  rw [hk' (max k k') (Nat.le_max_right ..), Option.some.injEq] at heq
  exact heq.symm

/-- One round, and the answer of the rounds after it. -/
theorem Returns.of_succ {k : Nat} (h : ∀ fuel, k ≤ fuel → f (fuel + 1) = some r) :
    Returns f r := by
  refine ⟨k + 1, fun fuel hfuel => ?_⟩
  obtain ⟨m, rfl⟩ : ∃ m, fuel = m + 1 := ⟨fuel - 1, by omega⟩
  exact h m (by omega)

theorem returns_of_const (h : ∀ fuel, f fuel = some r) : Returns f r :=
  ⟨0, fun fuel _ => h fuel⟩

/-- More fuel gives no answer either. -/
def NoResult (f : Nat → Option α) : Prop := ∃ k, ∀ fuel, k ≤ fuel → f fuel = none

theorem Returns.not_noResult (h : Returns f r) : ¬ NoResult f := by
  obtain ⟨k, hk⟩ := h
  rintro ⟨k', hk'⟩
  have hnone := hk' (max k k') (Nat.le_max_right ..)
  rw [hk (max k k') (Nat.le_max_left ..)] at hnone
  cases hnone

/-- One round, and no answer of the rounds after it. -/
theorem NoResult.of_succ {k : Nat}
    (h : ∀ fuel, k ≤ fuel → f (fuel + 1) = none) : NoResult f := by
  refine ⟨k + 1, fun fuel hfuel => ?_⟩
  obtain ⟨m, rfl⟩ : ∃ m, fuel = m + 1 := ⟨fuel - 1, by omega⟩
  exact h m (by omega)

/-- An answer that is needed where there is none. -/
theorem Returns.and_noResult {g : Nat → Option β} (h : Returns f r) (h' : NoResult g) :
    ∃ k, ∀ fuel, k ≤ fuel → f fuel = some r ∧ g fuel = none := by
  obtain ⟨k, hk⟩ := h
  obtain ⟨k', hk'⟩ := h'
  refine ⟨max k k', fun fuel hfuel => ⟨hk fuel ?_, hk' fuel ?_⟩⟩
  · exact Nat.le_trans (Nat.le_max_left ..) hfuel
  · exact Nat.le_trans (Nat.le_max_right ..) hfuel

/-- Two answers that are needed at once. -/
theorem Returns.and {g : Nat → Option β} {s : β} (h : Returns f r) (h' : Returns g s) :
    ∃ k, ∀ fuel, k ≤ fuel → f fuel = some r ∧ g fuel = some s := by
  obtain ⟨k, hk⟩ := h
  obtain ⟨k', hk'⟩ := h'
  refine ⟨max k k', fun fuel hfuel => ⟨hk fuel ?_, hk' fuel ?_⟩⟩
  · exact Nat.le_trans (Nat.le_max_left ..) hfuel
  · exact Nat.le_trans (Nat.le_max_right ..) hfuel

/-- The answer of a function of two fuels. -/
def Returns₂ (g : Nat → Nat → Option α) (r : α) : Prop :=
  ∃ k, ∀ m n, k ≤ m → k ≤ n → g m n = some r

theorem Returns₂.diag {g : Nat → Nat → Option α} (h : Returns₂ g r) :
    Returns (fun fuel => g fuel fuel) r := by
  obtain ⟨k, hk⟩ := h
  exact ⟨k, fun fuel hfuel => hk fuel fuel hfuel hfuel⟩

/-- One round with the first fuel, and the rounds after it. -/
theorem Returns₂.of_succ {g : Nat → Nat → Option α} {h : Nat → Option β} {s : β}
    (hfirst : Returns h s) {g' : Nat → Nat → Option α} (hrest : Returns₂ g' r)
    (hstep : ∀ m n, h m = some s → g' m n = some r → g m (n + 1) = some r) :
    Returns₂ g r := by
  obtain ⟨k, hk⟩ := hfirst
  obtain ⟨k', hk'⟩ := hrest
  refine ⟨max k k' + 1, fun m n hm hn => ?_⟩
  obtain ⟨n, rfl⟩ : ∃ i, n = i + 1 := ⟨n - 1, by omega⟩
  exact hstep m n (hk m (by omega)) (hk' m n (by omega) (by omega))

/-- One round with the first fuel that gives the answer. -/
theorem Returns₂.of_first {g : Nat → Nat → Option α} {h : Nat → Option β} {s : β}
    (hfirst : Returns h s) (hstep : ∀ m n, h m = some s → g m (n + 1) = some r) :
    Returns₂ g r := by
  obtain ⟨k, hk⟩ := hfirst
  refine ⟨k + 1, fun m n hm hn => ?_⟩
  obtain ⟨n, rfl⟩ : ∃ i, n = i + 1 := ⟨n - 1, by omega⟩
  exact hstep m n (hk m (by omega))

/-! ## Cursors -/

variable {next : Nat → σ → Option (Option α × σ)} {s t u : σ} {a : α} {as as' : List α}

/-- From `s` on the cursor hands out `as` and ends in `t`. -/
inductive Yields (next : Nat → σ → Option (Option α × σ)) : σ → List α → σ → Prop
  | done {s t : σ} : Returns (fun fuel => next fuel s) (none, t) → Yields next s [] t
  | item {s t u : σ} {a : α} {as : List α} : Returns (fun fuel => next fuel s) (some a, t) →
      Yields next t as u → Yields next s (a :: as) u

/-- A cursor hands out one list. -/
theorem Yields.unique (h : Yields next s as t) (h' : Yields next s as' u) :
    as = as' ∧ t = u := by
  induction h generalizing as' u with
  | done hdone =>
    cases h' with
    | done hdone' => exact ⟨rfl, (Prod.mk.inj (hdone.unique hdone')).2⟩
    | item hitem _ => cases (Prod.mk.inj (hdone.unique hitem)).1
  | item hitem _ ih =>
    cases h' with
    | done hdone => cases (Prod.mk.inj (hitem.unique hdone)).1
    | item hitem' hrest =>
      obtain ⟨ha, rfl⟩ := Prod.mk.inj (hitem.unique hitem')
      obtain ⟨rfl, rfl⟩ := ih hrest
      rw [Option.some.injEq] at ha
      exact ⟨by rw [ha], rfl⟩

theorem Yields.not_noResult (h : Yields next s as t) :
    ¬ NoResult (fun fuel => next fuel s) := by
  cases h with
  | done hdone => exact hdone.not_noResult
  | item hitem _ => exact hitem.not_noResult

/-- A cursor whose first answer is that of another one. -/
theorem Yields.of_first {s' : σ}
    (hfirst : ∀ r, Returns (fun fuel => next fuel s) r → Returns (fun fuel => next fuel s') r)
    (h : Yields next s as t) : Yields next s' as t := by
  cases h with
  | done hdone => exact .done (hfirst _ hdone)
  | item hitem hrest => exact .item (hfirst _ hitem) hrest

/-- A cursor that changes every item. -/
theorem Yields.map {γ : Type*} (g : α → γ) (h : Yields next s as t) :
    Yields (fun fuel s => (next fuel s).map fun (a, s) => (a.map g, s)) s (as.map g) t := by
  induction h with
  | done hdone => exact .done (hdone.imp fun k hk fuel hfuel => by simp [hk fuel hfuel])
  | item hitem _ ih =>
    exact .item (hitem.imp fun k hk fuel hfuel => by simp [hk fuel hfuel]) ih

/-- The loop that takes every item. -/
def collect (next : Nat → σ → Option (Option α × σ)) : Nat → σ → Option (List α × σ)
  | 0, _ => none
  | fuel + 1, s =>
      match next fuel s with
      | none => none
      | some (none, t) => some ([], t)
      | some (some a, t) => (collect next fuel t).map fun (as, u) => (a :: as, u)

theorem Yields.returns_collect (h : Yields next s as t) :
    Returns (fun fuel => collect next fuel s) (as, t) := by
  induction h with
  | @done s t hdone =>
    obtain ⟨k, hk⟩ := hdone
    refine .of_succ (k := k) fun fuel hfuel => ?_
    simp [collect, hk fuel hfuel]
  | @item s t u a as hitem _ ih =>
    obtain ⟨k, hk⟩ := hitem.and ih
    refine .of_succ (k := k) fun fuel hfuel => ?_
    obtain ⟨hnext, hrest⟩ := hk fuel hfuel
    simp [collect, hnext, hrest]

end Cursor
