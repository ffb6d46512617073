/-
Toadb.Lib.Refinement — an implementation that answers calls, and the
specification its answers are measured against.

`run` executes calls on a state and collects the answers; a call that cannot
be executed stops the run. A specification is a relation `R x a b y`: in `x`
the call `a` may answer `b` and lead to `y`; `Behaves R` follows it along a
list of calls. `run_refines` is the simulation rule.

`Right good` says of calls that each of them can be executed and does what
`good` asks for. When `ok` tells from the state before a call whether it
will, `right_iff_along` tells it for lists of calls.
-/
import Mathlib.Logic.Basic

namespace Refinement

variable {σ τ α β : Type*}

/-- Execute the calls one after the other, with the answers. -/
def run (step : σ → α → Option (β × σ)) : σ → List α → Option (List β × σ)
  | s, [] => some ([], s)
  | s, a :: as =>
      match step s a with
      | none => none
      | some (b, t) =>
          match run step t as with
          | none => none
          | some (bs, u) => some (b :: bs, u)

/-- The answers are ones the specification allows. -/
inductive Behaves (R : τ → α → β → τ → Prop) : τ → List α → List β → τ → Prop
  | nil (x : τ) : Behaves R x [] [] x
  | cons {x y z : τ} {a : α} {b : β} {as : List α} {bs : List β} (head : R x a b y)
      (tail : Behaves R y as bs z) : Behaves R x (a :: as) (b :: bs) z

variable {step : σ → α → Option (β × σ)} {R : τ → α → β → τ → Prop}

@[simp] theorem run_nil (s : σ) : run step s [] = some ([], s) := rfl

/-- A run of one call. -/
theorem run_singleton {s t : σ} {a : α} {bs : List β} (h : run step s [a] = some (bs, t)) :
    ∃ b, bs = [b] ∧ step s a = some (b, t) := by
  unfold run at h
  split at h
  · cases h
  · rename_i b u hstep
    obtain ⟨rfl, rfl⟩ := Prod.mk.inj (Option.some.inj h)
    exact ⟨b, rfl, hstep⟩

theorem behaves_singleton {x z : τ} {a : α} {b : β}
    (h : Behaves R x [a] [b] z) : R x a b z := by
  cases h with
  | cons head tail =>
    cases tail
    exact head

/-- The simulation rule: every call can be executed, keeps the invariant and answers as
specified. -/
theorem run_refines {I : σ → Prop} {abs : σ → τ}
    (hstep : ∀ s a, I s → ∃ b t, step s a = some (b, t) ∧ I t ∧ R (abs s) a b (abs t)) :
    ∀ (as : List α) {s : σ}, I s →
      ∃ bs t, run step s as = some (bs, t) ∧ I t ∧ Behaves R (abs s) as bs (abs t)
  | [], s, hs => ⟨[], s, rfl, hs, .nil _⟩
  | a :: as, s, hs => by
    obtain ⟨b, t, hat, ht, hR⟩ := hstep s a hs
    obtain ⟨bs, u, hrun, hu, hall⟩ := run_refines hstep as ht
    exact ⟨b :: bs, u, by simp only [run, hat, hrun], hu, .cons hR hall⟩

/-! ## Calls that do what is asked -/

/-- Every call is executed and `good` of the states around it and its answer. -/
def Right (step : σ → α → Option (β × σ)) (good : σ → α → β → σ → Prop) : σ → List α → Prop
  | _, [] => True
  | s, a :: as => ∃ b t, step s a = some (b, t) ∧ good s a b t ∧ Right step good t as

/-- `ok` holds of every call in the state it is made in. -/
def Along (step : σ → α → Option (β × σ)) (ok : σ → α → Prop) : σ → List α → Prop
  | _, [] => True
  | s, a :: as => ok s a ∧ ∀ b t, step s a = some (b, t) → Along step ok t as

variable {good : σ → α → β → σ → Prop} {ok : σ → α → Prop}

theorem along_cons {s t : σ} {a : α} {b : β} {as : List α} (h : step s a = some (b, t)) :
    Along step ok s (a :: as) ↔ ok s a ∧ Along step ok t as := by
  constructor
  · rintro ⟨hat, hrest⟩
    exact ⟨hat, hrest b t h⟩
  · rintro ⟨hat, hrest⟩
    refine ⟨hat, fun b' t' h' => ?_⟩
    obtain ⟨rfl, rfl⟩ := Prod.mk.inj (Option.some.inj (h.symm.trans h'))
    exact hrest

theorem right_iff_along {I : σ → Prop}
    (hgood : ∀ s a, I s → ok s a → ∃ b t, step s a = some (b, t) ∧ good s a b t ∧ I t)
    (hok : ∀ s a b t, I s → step s a = some (b, t) → good s a b t → ok s a) :
    ∀ (as : List α) {s : σ}, I s → (Right step good s as ↔ Along step ok s as)
  | [], _, _ => Iff.rfl
  | a :: as, s, hs => by
    constructor
    · rintro ⟨b, t, hstep, hright, hrest⟩
      have hat : ok s a := hok s a b t hs hstep hright
      obtain ⟨b', t', hstep', -, ht⟩ := hgood s a hs hat
      obtain ⟨rfl, rfl⟩ := Prod.mk.inj (Option.some.inj (hstep.symm.trans hstep'))
      rw [along_cons hstep]
      exact ⟨hat, (right_iff_along hgood hok as ht).mp hrest⟩
    · rintro ⟨hat, hrest⟩
      obtain ⟨b, t, hstep, hright, ht⟩ := hgood s a hs hat
      exact ⟨b, t, hstep, hright, (right_iff_along hgood hok as ht).mpr (hrest b t hstep)⟩

end Refinement
