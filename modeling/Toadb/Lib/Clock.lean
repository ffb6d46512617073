/-
Toadb.Lib.Clock — a loop that goes round and round over `Fin N`.

A round at one place either goes on to the next place or stops there. What the rounds keep
holds where the loop stops (`sweep_some`); a loop no round of which stops is endless
(`sweep_none`). It stops when one place has a credit that no round raises and that its
own rounds use up (`sweep_stops`): the measure is the credit first, and then the way from
the hand to that place.
-/
import Toadb.Lib.Cursor
import Mathlib.Algebra.Group.Fin.Basic
import Mathlib.Algebra.Order.Ring.Int

namespace Clock

variable {σ : Type} {N : Nat} [NeZero N]

/-- What one round does. -/
inductive Round (σ : Type) where
  | goOn (s : σ)
  | stop (s : σ)

/-- The loop, with at most `fuel` rounds: where it stops, and the state there. -/
def sweep (round : Fin N → σ → Round σ) : Nat → Fin N → σ → Option (Fin N × σ)
  | 0, _, _ => none
  | fuel + 1, id, s =>
      match round id s with
      | .stop s => some (id, s)
      | .goOn s => sweep round fuel (id + 1) s

variable {round : Fin N → σ → Round σ}

theorem sweep_mono {fuel : Nat} :
    ∀ {id : Fin N} {s : σ} {r : Fin N × σ}, sweep round fuel id s = some r →
    ∀ {fuel' : Nat}, fuel ≤ fuel' → sweep round fuel' id s = some r := by
  induction fuel with
  | zero => intro id s r h; cases h
  | succ fuel ih =>
    intro id s r h fuel' hfuel
    obtain ⟨more, rfl⟩ : ∃ more, fuel' = more + 1 := ⟨fuel' - 1, by omega⟩
    rw [sweep] at h ⊢
    split at h
    · exact h
    · exact ih h (by omega)

/-- The loop stops in a round that starts with what every round keeps. -/
theorem sweep_some (Inv : σ → Prop)
    (hkeep : ∀ id s s', Inv s → round id s = .goOn s' → Inv s') :
    ∀ {fuel : Nat} {id id' : Fin N} {s s' : σ}, Inv s →
      sweep round fuel id s = some (id', s') →
      ∃ s₀, Inv s₀ ∧ round id' s₀ = .stop s' := by
  intro fuel
  induction fuel with
  | zero => intro id id' s s' _ h; cases h
  | succ fuel ih =>
    intro id id' s s' hinv h
    rw [sweep] at h
    split at h
    · rename_i hround
      cases h
      exact ⟨s, hinv, hround⟩
    · rename_i hround
      exact ih (hkeep id s _ hinv hround) h

/-- A loop that stops nowhere. -/
theorem sweep_none (Inv : σ → Prop)
    (hnever : ∀ id s, Inv s → ∃ s', round id s = .goOn s' ∧ Inv s') (fuel : Nat) :
    ∀ (id : Fin N) {s : σ}, Inv s → sweep round fuel id s = none := by
  induction fuel with
  | zero => intro id s _; rfl
  | succ fuel ih =>
    intro id s hinv
    obtain ⟨s', hround, hinv'⟩ := hnever id s hinv
    rw [sweep, hround]
    exact ih (id + 1) hinv'

/-- The way from the hand to a place it has not reached gets shorter by one. -/
theorem way_succ {id place : Fin N} (h : id ≠ place) :
    (place - id).val = (place - (id + 1)).val + 1 := by
  have hne : place - id ≠ 0 := fun h0 => h (sub_eq_zero.mp h0).symm
  have hstep : place - (id + 1) = place - id - 1 := by rw [sub_sub]
  have hpos : 0 < (place - id).val := Nat.pos_of_ne_zero fun h0 => hne (Fin.ext h0)
  rw [hstep]
  have hlt := (place - id).isLt
  have hone : (1 : Fin N).val ≤ (place - id).val := by
    rw [Fin.val_one']
    exact (Nat.mod_le 1 N).trans hpos
  rw [Fin.sub_val_of_le hone, Fin.val_one', Nat.mod_eq_of_lt (by omega)]
  omega

/-- A place whose credit its own rounds use up, and no other round raises, stops the loop. -/
theorem sweep_stops (Inv : σ → Prop) (place : Fin N) (credit : σ → Nat)
    (hkeep : ∀ id s s', Inv s → round id s = .goOn s' → Inv s' ∧ credit s' ≤ credit s)
    (hpays : ∀ s s', Inv s → round place s = .goOn s' → credit s' < credit s) :
    ∀ {fuel : Nat} {id : Fin N} {s : σ}, Inv s → credit s * N + (place - id).val < fuel →
      (sweep round fuel id s).isSome := by
  intro fuel
  induction fuel with
  | zero => intro id s _ h; omega
  | succ fuel ih =>
    intro id s hinv hfuel
    rw [sweep]
    split
    · rfl
    · rename_i s' hround
      obtain ⟨hinv', hcredit⟩ := hkeep id s s' hinv hround
      refine ih hinv' ?_
      by_cases hid : id = place
      · subst hid
        have hpay : credit s' + 1 ≤ credit s := hpays s s' hinv hround
        have hway := (id - (id + 1)).isLt
        have hround : (credit s' + 1) * N ≤ credit s * N := Nat.mul_le_mul_right N hpay
        rw [Nat.add_mul, Nat.one_mul] at hround
        omega
      · have hway := way_succ hid
        have hround : credit s' * N ≤ credit s * N := Nat.mul_le_mul_right N hcredit
        omega

theorem returns_sweep (Inv : σ → Prop) (place : Fin N) (credit : σ → Nat)
    (hkeep : ∀ id s s', Inv s → round id s = .goOn s' → Inv s' ∧ credit s' ≤ credit s)
    (hpays : ∀ s s', Inv s → round place s = .goOn s' → credit s' < credit s)
    (id : Fin N) {s : σ}
    (hinv : Inv s) : ∃ r, Cursor.Returns (fun fuel => sweep round fuel id s) r := by
  have hstops : (sweep round (credit s * N + (place - id).val + 1) id s).isSome :=
    sweep_stops Inv place credit hkeep hpays hinv (Nat.lt_succ_self _)
  obtain ⟨r, hr⟩ := Option.isSome_iff_exists.mp hstops
  exact ⟨r, _, fun fuel hfuel => sweep_mono hr hfuel⟩

end Clock
