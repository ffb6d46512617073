/-
Toadb.Lib.Exact — when is the arithmetic of the machine exact?

An operation on signed numbers of `w` bits gives the result of the integers
when that result is one of the numbers (`Fits`), and another one when it is
not: `toInt_add_iff`, `toInt_sub_iff`, `toInt_mul_iff`.
-/
import Mathlib.Algebra.Order.Ring.Int

namespace Exact

/-- A signed number of `w` bits. -/
def Fits (w : Nat) (x : Int) : Prop := -2 ^ (w - 1) ≤ x ∧ x < 2 ^ (w - 1)

instance (w : Nat) (x : Int) : Decidable (Fits w x) :=
  inferInstanceAs (Decidable (_ ∧ _))

theorem fits_toInt {w : Nat} (a : BitVec w) : Fits w a.toInt :=
  ⟨BitVec.le_toInt a, BitVec.toInt_lt⟩

/-- The remainder around 0 is the number itself for the numbers that fit. -/
theorem bmod_eq_self_iff {w : Nat} (hw : 0 < w) (x : Int) :
    x.bmod (2 ^ w) = x ↔ Fits w x := by
  obtain ⟨k, rfl⟩ : ∃ k, w = k + 1 := ⟨w - 1, by omega⟩
  have hpow : ((2 ^ (k + 1) : Nat) : Int) = 2 * 2 ^ k := by
    rw [Int.natCast_pow, pow_succ]
    exact mul_comm _ _
  have hpos : (0 : Int) < 2 ^ k := pow_pos (by omega) k
  have hlo : -2 ^ k ≤ x.bmod (2 ^ (k + 1)) := by
    have h := Int.le_bmod (x := x) (m := 2 ^ (k + 1)) (Nat.two_pow_pos _)
    rw [hpow] at h
    omega
  have hhi : x.bmod (2 ^ (k + 1)) < 2 ^ k := by
    have h := Int.bmod_lt (x := x) (m := 2 ^ (k + 1)) (Nat.two_pow_pos _)
    rw [hpow] at h
    omega
  constructor
  · intro h
    rw [h] at hlo hhi
    exact ⟨hlo, hhi⟩
  · intro h
    refine Int.bmod_eq_of_le ?_ ?_
    · rw [hpow]
      have := h.1
      simp only [Nat.add_sub_cancel] at this
      omega
    · rw [hpow]
      have := h.2
      simp only [Nat.add_sub_cancel] at this
      omega

section Operations

variable {w : Nat} (hw : 0 < w) (a b : BitVec w)
include hw

theorem toInt_add_iff : (a + b).toInt = a.toInt + b.toInt ↔ Fits w (a.toInt + b.toInt) := by
  rw [BitVec.toInt_add]
  exact bmod_eq_self_iff hw _

theorem toInt_sub_iff : (a - b).toInt = a.toInt - b.toInt ↔ Fits w (a.toInt - b.toInt) := by
  rw [BitVec.toInt_sub]
  exact bmod_eq_self_iff hw _

theorem toInt_mul_iff : (a * b).toInt = a.toInt * b.toInt ↔ Fits w (a.toInt * b.toInt) := by
  rw [BitVec.toInt_mul]
  exact bmod_eq_self_iff hw _

end Operations

end Exact
