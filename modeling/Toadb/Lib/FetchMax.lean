/-
Toadb.Lib.FetchMax — a value that is raised by compare-and-swap.

Any number of workers call with an element of a linear order. A call reads the value, and as
long as what it has read is below its element it swaps the two, unless the value is
another one by then; so it reads again. `Step` is one access.

  * `Step.le`       — the value never goes down;
  * `Ok.step`       — the invariant: no call has read more than there is, and what was passed
                      is reached, or its call still goes on;
  * `Ok.isGreatest` — with no call in progress, the value is the greatest of what was passed
                      and of the first one.

With the order turned around it is the least. `HasReg.run_le` and `HasReg.run_ok` carry the
two over to the runs of a system that has such a value.
-/
import Toadb.Lib.Transition
import Mathlib.Order.Lattice
import Mathlib.Order.Bounds.Defs
import Mathlib.Logic.Function.Basic

namespace FetchMax

variable {W α : Type*} [DecidableEq W] [LinearOrder α]

/-- The value, the calls that are in progress with their element and what they have read, and
all that was passed. -/
structure Reg (W α : Type*) where
  value : α
  calls : W → Option (α × α)
  passed : List α

/-- One access of a worker. -/
inductive Step : Reg W α → Reg W α → Prop
  | call {s : Reg W α} (w : W) (x : α) : s.calls w = none →
      Step s ⟨s.value, Function.update s.calls w (some (x, s.value)), x :: s.passed⟩
  | reached {s : Reg W α} {w : W} {x copy : α} : s.calls w = some (x, copy) → x ≤ copy →
      Step s { s with calls := Function.update s.calls w none }
  | swap {s : Reg W α} {w : W} {x : α} : s.calls w = some (x, s.value) → s.value < x →
      Step s { s with value := x, calls := Function.update s.calls w none }
  | retry {s : Reg W α} {w : W} {x copy : α} : s.calls w = some (x, copy) →
      Step s { s with calls := Function.update s.calls w (some (x, s.value)) }

variable {s s' : Reg W α} {first : α}

/-- The value never goes down. -/
theorem Step.le (h : Step s s') : s.value ≤ s'.value := by
  cases h with
  | swap _ hlt => exact hlt.le
  | call | reached | retry => exact le_rfl

/-- The invariant. -/
structure Ok (first : α) (s : Reg W α) : Prop where
  attained : s.value = first ∨ s.value ∈ s.passed
  first_le : first ≤ s.value
  calls : ∀ w x copy, s.calls w = some (x, copy) → copy ≤ s.value ∧ x ∈ s.passed
  passed : ∀ x ∈ s.passed, x ≤ s.value ∨ ∃ w copy, s.calls w = some (x, copy)

omit [DecidableEq W] in
theorem ok_start (first : α) : Ok first (⟨first, fun _ : W => none, []⟩ : Reg W α) where
  attained := .inl rfl
  first_le := le_rfl
  calls := nofun
  passed := nofun

/-- What was passed stays reached, or its call in progress, when a call ends that has reached
its own. -/
theorem Ok.passed_end {w : W} {y value : α} {copy : α} (h : Ok first s)
    (hcall : s.calls w = some (y, copy)) (hle : s.value ≤ value) (hy : y ≤ value) :
    ∀ x ∈ s.passed, x ≤ value ∨ ∃ u copy,
      Function.update s.calls w none u = some (x, copy) := by
  intro x hx
  rcases h.passed x hx with hreached | ⟨u, copy', hu⟩
  · exact .inl (hreached.trans hle)
  · by_cases heq : u = w
    · subst heq
      rw [hcall] at hu
      cases hu
      exact .inl hy
    · exact .inr ⟨u, copy', by rwa [Function.update_of_ne heq]⟩

/-- The other calls stay as they are when one ends. -/
theorem Ok.calls_end {w : W} {value : α} (h : Ok first s) (hle : s.value ≤ value)
    (u : W) (x copy : α) (hu : Function.update s.calls w none u = some (x, copy)) :
    copy ≤ value ∧ x ∈ s.passed := by
  by_cases heq : u = w
  · rw [heq, Function.update_self] at hu
    cases hu
  · rw [Function.update_of_ne heq] at hu
    exact ⟨(h.calls u x copy hu).1.trans hle, (h.calls u x copy hu).2⟩

/-- A call has just read the value, and the others stay as they are. -/
theorem Ok.calls_read {w : W} {y : α} {passed : List α} (h : Ok first s)
    (hsub : s.passed ⊆ passed) (hy : y ∈ passed) (u : W) (x copy : α)
    (hu : Function.update s.calls w (some (y, s.value)) u = some (x, copy)) :
    copy ≤ s.value ∧ x ∈ passed := by
  by_cases heq : u = w
  · rw [heq, Function.update_self] at hu
    cases hu
    exact ⟨le_rfl, hy⟩
  · rw [Function.update_of_ne heq] at hu
    exact ⟨(h.calls u x copy hu).1, hsub (h.calls u x copy hu).2⟩

theorem Ok.passed_read {w : W} {y : α} (h : Ok first s)
    (hcall : ∀ x copy, s.calls w = some (x, copy) → x = y) :
    ∀ x ∈ s.passed, x ≤ s.value ∨ ∃ u copy,
      Function.update s.calls w (some (y, s.value)) u = some (x, copy) := by
  intro x hx
  refine (h.passed x hx).imp_right ?_
  rintro ⟨u, copy, hu⟩
  by_cases heq : u = w
  · rw [heq] at hu
    exact ⟨w, s.value, by rw [Function.update_self, hcall x copy hu]⟩
  · exact ⟨u, copy, by rwa [Function.update_of_ne heq]⟩

theorem Ok.step (h : Ok first s) (hstep : Step s s') : Ok first s' := by
  cases hstep with
  | call w y hnone =>
    refine ⟨h.attained.imp_right (List.mem_cons_of_mem y), h.first_le,
      h.calls_read (List.subset_cons_self ..) List.mem_cons_self,
        List.forall_mem_cons.mpr ⟨?_, ?_⟩⟩
    · exact .inr ⟨w, s.value, Function.update_self ..⟩
    · exact h.passed_read fun x copy hcall => by simp [hnone] at hcall
  | reached hcall hle =>
    have hreached := hle.trans (h.calls _ _ _ hcall).1
    exact ⟨h.attained, h.first_le, h.calls_end le_rfl, h.passed_end hcall le_rfl hreached⟩
  | swap hcall hlt =>
    exact ⟨.inr (h.calls _ _ _ hcall).2, h.first_le.trans hlt.le, h.calls_end hlt.le,
      h.passed_end hcall hlt.le le_rfl⟩
  | retry hcall =>
    refine ⟨h.attained, h.first_le, h.calls_read (List.Subset.refl _) (h.calls _ _ _ hcall).2,
      h.passed_read ?_⟩
    intro x copy hother
    rw [hcall] at hother
    cases hother
    rfl

omit [DecidableEq W] in
/-- With no call in progress the value is the greatest. -/
theorem Ok.isGreatest (h : Ok first s) (hidle : ∀ w, s.calls w = none) :
    IsGreatest {x | x = first ∨ x ∈ s.passed} s.value := by
  refine ⟨h.attained, ?_⟩
  rintro x (rfl | hx)
  · exact h.first_le
  · rcases h.passed x hx with hreached | ⟨w, copy, hw⟩
    · exact hreached
    · simp [hidle w] at hw

/-! ## Systems -/

section Systems

variable {σ β : Type*} {step : σ → β → Option σ} {reg : σ → Reg W α} {t u : σ} {as : List β}

/-- Every step of the system is one of its register, or is not seen there. -/
def HasReg (step : σ → β → Option σ) (reg : σ → Reg W α) : Prop :=
  ∀ t a u, step t a = some u → reg u = reg t ∨ Step (reg t) (reg u)

theorem HasReg.run_le (h : HasReg step reg) (hrun : Transition.run step t as = some u) :
    (reg t).value ≤ (reg u).value := by
  refine Transition.run_relation_of_step (R := fun t u => (reg t).value ≤ (reg u).value)
    (fun _ => le_rfl) le_trans ?_ hrun
  intro t a u hstep
  rcases h t a u hstep with heq | hreg
  · rw [heq]
  · exact hreg.le

theorem HasReg.run_ok (h : HasReg step reg) (hok : Ok first (reg t))
    (hrun : Transition.run step t as = some u) :
    Ok first (reg u) := by
  refine Transition.run_invariant_of_step (I := fun t => Ok first (reg t)) ?_ hok hrun
  intro t a u ht hstep
  rcases h t a u hstep with heq | hreg
  · rwa [heq]
  · exact ht.step hreg

end Systems

end FetchMax
