/-
Toadb.Lib.Shortlex — lists ordered by length and then by content.

`rank l` puts a list into a linear order, the one of its length and itself.
`cmpFirst` compares the first elements of two lists one by one, the way C
compares strings. On lists of one length it is the order of the contents
(`cmpFirst_compares`), and after a comparison of the lengths it is the order of the
ranks (`cmpShortlex_eq`).
-/
import Mathlib.Data.Prod.Lex
import Mathlib.Data.List.Lex
import Mathlib.Algebra.Order.Ring.Int

namespace Shortlex

variable {α : Type*}

/-- The place of a list in the order. -/
def rank (l : List α) : ℕ ×ₗ List α := toLex (l.length, l)

theorem rank_inj {l l' : List α} : rank l = rank l' ↔ l = l' := by
  constructor
  · intro h
    exact congrArg Prod.snd (toLex_inj.mp h)
  · rintro rfl
    rfl

variable [LinearOrder α]

/-- The first `n` elements, one after the other; a list that ends is smaller. -/
def cmpFirst : List α → List α → Nat → Ordering
  | _, _, 0 => .eq
  | [], [], _ => .eq
  | [], _ :: _, _ => .lt
  | _ :: _, [], _ => .gt
  | a :: l, b :: l', n + 1 =>
      if a < b then .lt else if b < a then .gt else cmpFirst l l' n

@[simp] theorem cmpFirst_zero (l l' : List α) : cmpFirst l l' 0 = .eq := by
  cases l <;> cases l' <;> rfl

theorem cmpFirst_compares : ∀ {l l' : List α} {n : Nat}, l.length = n → l'.length = n →
    (cmpFirst l l' n).Compares l l'
  | [], [], _, rfl, _ => rfl
  | [], b :: l', n, h, h' => by
    rw [List.length_cons] at h'
    rw [List.length_nil] at h
    omega
  | a :: l, [], n, h, h' => by
    rw [List.length_cons] at h
    rw [List.length_nil] at h'
    omega
  | a :: l, b :: l', 0, h, _ => absurd h (Nat.succ_ne_zero _)
  | a :: l, b :: l', n + 1, h, h' => by
    unfold cmpFirst
    split
    · rename_i hlt
      exact List.Lex.rel hlt
    · split
      · rename_i hlt
        exact List.Lex.rel hlt
      · rename_i hle hge
        obtain rfl : a = b := le_antisymm (not_lt.mp hge) (not_lt.mp hle)
        have ih : (cmpFirst l l' n).Compares l l' :=
          cmpFirst_compares (Nat.succ.inj h) (Nat.succ.inj h')
        cases ho : cmpFirst l l' n with
        | lt =>
          rw [ho] at ih
          exact List.Lex.cons ih
        | eq =>
          rw [ho] at ih
          exact congrArg (a :: ·) ih
        | gt =>
          rw [ho] at ih
          exact List.Lex.cons ih

/-- The lengths first, then the contents. -/
def cmpShortlex (l l' : List α) : Ordering :=
  if l'.length < l.length then .gt
  else if l.length < l'.length then .lt
  else cmpFirst l l' l.length

theorem cmpShortlex_eq (l l' : List α) : cmpShortlex l l' = cmp (rank l) (rank l') := by
  refine (Ordering.Compares.cmp_eq ?_).symm
  unfold cmpShortlex rank
  split
  · rename_i hlt
    exact Prod.Lex.toLex_lt_toLex.mpr (.inl hlt)
  · split
    · rename_i hlt
      exact Prod.Lex.toLex_lt_toLex.mpr (.inl hlt)
    · rename_i hle hge
      have hlen : l.length = l'.length := le_antisymm (not_lt.mp hle) (not_lt.mp hge)
      have hcmp : (cmpFirst l l' l.length).Compares l l' := cmpFirst_compares rfl hlen.symm
      cases ho : cmpFirst l l' l.length with
      | lt =>
        rw [ho] at hcmp
        exact Prod.Lex.toLex_lt_toLex.mpr (.inr ⟨hlen, hcmp⟩)
      | eq =>
        rw [ho] at hcmp
        have heq : l = l' := hcmp
        subst heq
        exact rfl
      | gt =>
        rw [ho] at hcmp
        exact Prod.Lex.toLex_lt_toLex.mpr (.inr ⟨hlen.symm, hcmp⟩)

end Shortlex
