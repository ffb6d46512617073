/-
Toadb.Lib.PowerOfTwo — the next power of two, computed by bit smearing.

`Smears x k y` says that every bit of `x` has spread to the `k` places from
its own downwards in `y`. Or-ing a number with its shift by `k` doubles `k`
(`Smears.or_shift`), and a number whose bits have spread over its whole
width has all bits below its highest one (`Smears.succ_eq`).
-/
import Mathlib.Data.Nat.Log
import Mathlib.Data.Nat.Bitwise
import Mathlib.Algebra.Order.Ring.Int

namespace PowerOfTwo

/-- The bits of `y` are those of `x` and the `k` bits below each. -/
def Smears (x k y : Nat) : Prop := ∀ i, y.testBit i = true ↔ ∃ j < k, x.testBit (i + j) = true

theorem smears_self (x : Nat) : Smears x 1 x := by
  intro i
  constructor
  · intro h
    exact ⟨0, Nat.one_pos, h⟩
  · rintro ⟨j, hj, h⟩
    obtain rfl : j = 0 := by omega
    exact h

theorem Smears.or_shift {x k y : Nat} (h : Smears x k y) :
    Smears x (k + k) (y ||| (y >>> k)) := by
  intro i
  rw [Nat.testBit_or, Nat.testBit_shiftRight, Bool.or_eq_true, h i, h (k + i)]
  constructor
  · rintro (⟨j, hj, hbit⟩ | ⟨j, hj, hbit⟩)
    · exact ⟨j, by omega, hbit⟩
    · exact ⟨k + j, by omega, by rwa [show i + (k + j) = k + i + j by omega]⟩
  · rintro ⟨j, hj, hbit⟩
    by_cases hjk : j < k
    · exact .inl ⟨j, hjk, hbit⟩
    · exact .inr ⟨j - k, by omega, by rwa [show k + i + (j - k) = i + j by omega]⟩

theorem exists_testBit_iff {x i : Nat} : (∃ m, i ≤ m ∧ x.testBit m = true) ↔ 2 ^ i ≤ x := by
  constructor
  · rintro ⟨m, him, hbit⟩
    exact (Nat.pow_le_pow_right Nat.two_pos him).trans (Nat.ge_two_pow_of_testBit hbit)
  · intro h
    obtain ⟨m, hm, hbit⟩ := Nat.exists_ge_and_testBit_of_ge_two_pow h
    exact ⟨m, hm, hbit⟩

/-- Spread over the whole width, the bits are exactly those below the highest one. -/
theorem Smears.succ_eq {x k y : Nat} (h : Smears x k y) (hx : x < 2 ^ k) :
    y + 1 = 2 ^ Nat.clog 2 (x + 1) := by
  have hy : y = 2 ^ Nat.clog 2 (x + 1) - 1 := by
    refine Nat.eq_of_testBit_eq fun i => ?_
    rw [Nat.testBit_two_pow_sub_one, Bool.eq_iff_iff, decide_eq_true_eq, h i]
    rw [← not_le, Nat.clog_le_iff_le_pow Nat.one_lt_two, Nat.succ_le_iff, not_lt,
      ← exists_testBit_iff]
    constructor
    · rintro ⟨j, -, hbit⟩
      exact ⟨i + j, Nat.le_add_right i j, hbit⟩
    · rintro ⟨m, him, hbit⟩
      -- The bit is one of `x`, so it is not `k` or more places up.
      have hmk : m < k := (Nat.pow_lt_pow_iff_right Nat.one_lt_two).mp
        ((Nat.ge_two_pow_of_testBit hbit).trans_lt hx)
      exact ⟨m - i, by omega, by rwa [Nat.add_sub_cancel' him]⟩
  have hpos : 0 < 2 ^ Nat.clog 2 (x + 1) := Nat.two_pow_pos _
  omega

/-- A number that is its own next power of two. -/
theorem eq_pow_clog_iff {n : Nat} : n = 2 ^ Nat.clog 2 n ↔ ∃ k, n = 2 ^ k := by
  constructor
  · intro h
    exact ⟨_, h⟩
  · rintro ⟨k, rfl⟩
    rw [Nat.clog_pow 2 k Nat.one_lt_two]

end PowerOfTwo
