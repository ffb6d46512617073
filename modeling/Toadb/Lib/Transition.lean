/-
Toadb.Lib.Transition — schedules over a partial step function.

A system is a state type `σ`, an action type `α` and an executable
`step : σ → α → Option σ` (`none` = the action is not enabled). A
schedule is a list of actions; `run` executes it and `Along ok` says that
every action of it is taken from a state where `ok` holds.

Five rules carry the proofs of the systems built on it:

  * `run_invariant`  — a property kept by every `ok` step holds after
                       every `ok` schedule;
  * `run_invariant_iff`, `run_property_iff` — when `ok` says exactly which
                       steps keep it, so does `Along ok` for schedules;
  * `run_relation`   — a reflexive, transitive relation between the
                       states of one `ok` step holds between the ends of
                       an `ok` schedule, given an invariant;
  * `run_append` / `along_append` — schedules compose.

The instances at the end are for the literals that name the workers of a system of one and of
two.

Nothing here names a particular system.
-/
import Mathlib.Logic.Basic
import Mathlib.Algebra.Order.Ring.Int

namespace Transition

variable {σ : Type*} {α : Type*}

/-! ## Executing a schedule -/

/-- Execute the actions of a schedule one after the other. -/
def run (step : σ → α → Option σ) : σ → List α → Option σ
  | s, [] => some s
  | s, a :: as =>
      match step s a with
      | some t => run step t as
      | none => none

/-- `ok` holds of every action at the state it is taken from. -/
def Along (step : σ → α → Option σ) (ok : σ → α → Prop) : σ → List α → Prop
  | _, [] => True
  | s, a :: as =>
      ok s a ∧
        match step s a with
        | some t => Along step ok t as
        | none => True

variable {step : σ → α → Option σ} {ok ok' : σ → α → Prop}

@[simp] theorem run_nil (s : σ) : run step s [] = some s := rfl

@[simp] theorem along_nil (s : σ) : Along step ok s [] := trivial

/-- A schedule that runs starts with an enabled action. -/
theorem run_cons {s u : σ} {a : α} {as : List α} :
    run step s (a :: as) = some u ↔ ∃ t, step s a = some t ∧ run step t as = some u := by
  cases h : step s a with
  | none => simp [run, h]
  | some t => simp [run, h]

theorem along_cons {s t : σ} {a : α} {as : List α} (h : step s a = some t) :
    Along step ok s (a :: as) ↔ ok s a ∧ Along step ok t as := by
  simp [Along, h]

/-- Schedules compose. -/
theorem run_append {s u : σ} {as bs : List α} :
    run step s (as ++ bs) = some u ↔ ∃ t,
      run step s as = some t ∧ run step t bs = some u := by
  induction as generalizing s with
  | nil => simp
  | cons a as ih =>
    simp only [List.cons_append, run_cons, ih]
    constructor
    · rintro ⟨t, ht, v, hv, hu⟩
      exact ⟨v, ⟨t, ht, hv⟩, hu⟩
    · rintro ⟨v, ⟨t, ht, hv⟩, hu⟩
      exact ⟨t, ht, v, hv, hu⟩

theorem along_append {s t : σ} {as bs : List α} (h : run step s as = some t) :
    Along step ok s (as ++ bs) ↔ Along step ok s as ∧ Along step ok t bs := by
  induction as generalizing s with
  | nil =>
    obtain rfl : s = t := by simpa using h
    simp
  | cons a as ih =>
    obtain ⟨v, hv, hrun⟩ := run_cons.mp h
    rw [List.cons_append, along_cons hv, along_cons hv, ih hrun, and_assoc]

/-- A weaker condition holds along the same schedule. -/
theorem Along.mono (himp : ∀ s a, ok s a → ok' s a) :
    ∀ {s : σ} {as : List α}, Along step ok s as → Along step ok' s as
  | _, [], _ => trivial
  | s, a :: as, h => by
    cases hs : step s a with
    | none => simpa [Along, hs] using himp s a (by simpa [Along, hs] using h)
    | some t =>
      rw [along_cons hs] at h ⊢
      exact ⟨himp s a h.1, h.2.mono himp⟩

/-- Two conditions along the same schedule. -/
theorem Along.and : ∀ {s : σ} {as : List α}, Along step ok s as → Along step ok' s as →
    Along step (fun s a => ok s a ∧ ok' s a) s as
  | _, [], _, _ => trivial
  | s, a :: as, h, h' => by
    cases hs : step s a with
    | none =>
      have hok : ok s a := by simpa [Along, hs] using h
      have hok' : ok' s a := by simpa [Along, hs] using h'
      simp [Along, hs, hok, hok']
    | some t =>
      rw [along_cons hs] at h h' ⊢
      exact ⟨⟨h.1, h'.1⟩, h.2.and h'.2⟩

/-- A condition that always holds. -/
theorem Along.of_forall (h : ∀ s a, ok s a) : ∀ (s : σ) (as : List α), Along step ok s as
  | _, [] => trivial
  | s, a :: as => by
    cases hs : step s a with
    | none => simpa [Along, hs] using h s a
    | some t =>
      rw [along_cons hs]
      exact ⟨h s a, Along.of_forall h t as⟩

/-- A condition on the actions alone, of a schedule that runs. -/
theorem along_iff_forall_mem {p : α → Prop} {s u : σ} {as : List α}
    (h : run step s as = some u) :
    Along step (fun _ a => p a) s as ↔ ∀ a ∈ as, p a := by
  induction as generalizing s with
  | nil => exact iff_of_true trivial nofun
  | cons a as ih =>
    obtain ⟨t, ht, hrun⟩ := run_cons.mp h
    rw [along_cons ht, List.forall_mem_cons, ih hrun]

instance decidableAlong [∀ s a, Decidable (ok s a)] :
    ∀ (s : σ) (as : List α), Decidable (Along step ok s as)
  | _, [] => isTrue trivial
  | s, a :: as =>
      match h : step s a with
      | some t =>
          have : Decidable (Along step ok t as) := decidableAlong t as
          decidable_of_iff (ok s a ∧ Along step ok t as) (along_cons h).symm
      | none => decidable_of_iff (ok s a) (by simp [Along, h])

/-- The state a schedule ends in, for schedules that run. -/
def exec (step : σ → α → Option σ) (s : σ) (as : List α) : σ := (run step s as).getD s

theorem run_exec {s : σ} {as : List α} (h : (run step s as).isSome = true) :
    run step s as = some (exec step s as) := by
  obtain ⟨t, ht⟩ := Option.isSome_iff_exists.mp h
  simp [exec, ht]

/-- A run cut before its last step. -/
theorem exec_snoc (step : σ → α → Option σ) (s : σ) (as : List α) (a : α)
    (h : (run step s (as ++ [a])).isSome = true) :
    run step s as = some (exec step s as) ∧
      step (exec step s as) a = some (exec step s (as ++ [a])) := by
  obtain ⟨t, hrun, hlast⟩ := run_append.mp (run_exec h)
  have ht : exec step s as = t := by simp [exec, hrun]
  obtain ⟨u, hstep, hnil⟩ := run_cons.mp hlast
  rw [ht, hstep, ← hnil, run_nil]
  exact ⟨hrun, rfl⟩

/-! ## The induction rules -/

/-- The invariant rule: what every `ok` step keeps, every `ok` schedule keeps. -/
theorem run_invariant {I : σ → Prop}
    (hstep : ∀ {s a t}, I s → ok s a → step s a = some t → I t) :
    ∀ {s t : σ} {as : List α}, I s → Along step ok s as → run step s as = some t → I t
  | s, t, [], hs, _, hrun => by
    obtain rfl : s = t := by simpa using hrun
    exact hs
  | s, t, a :: as, hs, hok, hrun => by
    obtain ⟨u, hu, hrun⟩ := run_cons.mp hrun
    rw [along_cons hu] at hok
    exact run_invariant hstep (hstep hs hok.1 hu) hok.2 hrun

/-- The invariant rule for steps that all keep it. -/
theorem run_invariant_of_step {I : σ → Prop}
    (hstep : ∀ {s a t}, I s → step s a = some t → I t) {s t : σ} {as : List α} (hs : I s)
    (hrun : run step s as = some t) : I t :=
  run_invariant (fun h (_ : True) => hstep h) hs
    (Along.of_forall (fun _ _ => trivial) s as) hrun

/-- When an `ok` step keeps the invariant, and any other one loses the property that the
invariant implies, a schedule that runs has the property in every state exactly when it is
`ok` all along. -/
theorem run_property_iff {I P : σ → Prop} (hI : ∀ {s}, I s → P s)
    (hstep : ∀ {s a t}, I s → step s a = some t → (ok s a → I t) ∧ (P t → ok s a)) :
    ∀ {s u : σ} {as : List α}, I s → run step s as = some u →
      ((∀ bs cs t, as = bs ++ cs → run step s bs = some t → P t) ↔ Along step ok s as)
  | s, u, [], hs, _ => by
    refine ⟨fun _ => trivial, ?_⟩
    rintro - bs cs t happ hrun
    obtain ⟨rfl, -⟩ := List.append_eq_nil_iff.mp happ.symm
    obtain rfl : s = t := by simpa using hrun
    exact hI hs
  | s, u, a :: as, hs, hrun => by
    obtain ⟨v, hv, hrun⟩ := run_cons.mp hrun
    rw [along_cons hv]
    constructor
    · intro hall
      have hok : ok s a := (hstep hs hv).2 (hall [a] as v rfl (run_cons.mpr ⟨v, hv, rfl⟩))
      refine ⟨hok, (run_property_iff hI hstep ((hstep hs hv).1 hok) hrun).mp ?_⟩
      intro bs cs t happ hbs
      exact hall (a :: bs) cs t (by rw [happ]; rfl) (run_cons.mpr ⟨v, hv, hbs⟩)
    · rintro ⟨hok, halong⟩ bs cs t happ hbs
      cases bs with
      | nil =>
        obtain rfl : s = t := by simpa using hbs
        exact hI hs
      | cons b bs =>
        obtain ⟨rfl, hsplit⟩ := List.cons.inj happ
        obtain ⟨v', hv', hbs⟩ := run_cons.mp hbs
        obtain rfl : v = v' := Option.some.inj (hv.symm.trans hv')
        exact (run_property_iff hI hstep ((hstep hs hv).1 hok) hrun).mpr
          halong bs cs t hsplit hbs

/-- When an `ok` step is exactly one that keeps the property, a schedule that runs keeps it
in every state exactly when it is `ok` all along. -/
theorem run_invariant_iff {I : σ → Prop}
    (hstep : ∀ {s a t}, I s → step s a = some t → (I t ↔ ok s a)) {s u : σ}
    {as : List α} (hs : I s) (hrun : run step s as = some u) :
    (∀ bs cs t, as = bs ++ cs → run step s bs = some t → I t) ↔ Along step ok s as :=
  run_property_iff id (fun h ha => ⟨(hstep h ha).mpr, (hstep h ha).mp⟩) hs hrun

/-- The relational rule: a preorder that relates the two ends of every `ok`
step from an invariant state relates the two ends of every `ok` schedule. -/
theorem run_relation {I : σ → Prop} {R : σ → σ → Prop}
    (hrefl : ∀ s, R s s) (htrans : ∀ {s t u}, R s t → R t u → R s u)
    (hinv : ∀ {s a t}, I s → ok s a → step s a = some t → I t)
    (hstep : ∀ {s a t}, I s → ok s a → step s a = some t → R s t) :
    ∀ {s t : σ} {as : List α}, I s → Along step ok s as → run step s as = some t → R s t
  | s, t, [], _, _, hrun => by
    obtain rfl : s = t := by simpa using hrun
    exact hrefl s
  | s, t, a :: as, hs, hok, hrun => by
    obtain ⟨u, hu, hrun⟩ := run_cons.mp hrun
    rw [along_cons hu] at hok
    exact htrans (hstep hs hok.1 hu)
      (run_relation hrefl htrans hinv hstep (hinv hs hok.1 hu) hok.2 hrun)

/-- The relational rule for steps that are all related. -/
theorem run_relation_of_step {R : σ → σ → Prop} (hrefl : ∀ s, R s s)
    (htrans : ∀ {s t u}, R s t → R t u → R s u)
    (hstep : ∀ {s a t}, step s a = some t → R s t) {s t : σ} {as : List α}
    (hrun : run step s as = some t) : R s t :=
  run_relation hrefl htrans (fun _ (_ : True) _ => trivial)
    (fun (_ : True) _ => hstep) trivial
    (Along.of_forall (fun _ _ => trivial) s as) hrun

end Transition

instance (priority := high) neZero_one : NeZero 1 := ⟨Nat.one_ne_zero⟩

instance (priority := high) neZero_two : NeZero 2 := ⟨Nat.succ_ne_zero 1⟩
