/-
Toadb.Lib.Regions — regions laid one behind another.

A layout walk keeps an offset: each region starts at it, and the offset moves
on by the region's length. The offset is a machine word: `wrap` is what a sum
turns into, and it is the sum itself up to `top`.

  * `layOut_within_iff` — in a block of at most `top` addresses the regions
    lie exactly when there is room for the sum of their lengths;
  * `layOut_apart`      — and then no two of them overlap.
-/
import Mathlib.Logic.Basic
import Mathlib.Algebra.Order.Ring.Int

namespace Regions

/-- `len` addresses from `start` on. -/
structure Region where
  start : Int
  len : Nat
  deriving DecidableEq, Repr

def Region.stop (r : Region) : Int := r.start + r.len

/-- The region lies in the block of `size` addresses from 0 on. -/
def Region.Within (r : Region) (size : Int) : Prop := 0 ≤ r.start ∧ r.stop ≤ size

instance (r : Region) (size : Int) : Decidable (r.Within size) :=
  inferInstanceAs (Decidable (_ ∧ _))

/-- The regions share no address. -/
def Region.Apart (r s : Region) : Prop := r.stop ≤ s.start ∨ s.stop ≤ r.start

instance (r s : Region) : Decidable (r.Apart s) := inferInstanceAs (Decidable (_ ∨ _))

/-- The walk. -/
def layOut (wrap : Int → Int) : Int → List Nat → List Region
  | _, [] => []
  | offset, len :: lens => ⟨offset, len⟩ :: layOut wrap (wrap (offset + len)) lens

variable {wrap : Int → Int} {top size : Int}

@[simp] theorem layOut_nil (offset : Int) : layOut wrap offset [] = [] := rfl

@[simp] theorem layOut_cons (offset : Int) (len : Nat) (lens : List Nat) :
    layOut wrap offset (len :: lens) =
      ⟨offset, len⟩ :: layOut wrap (wrap (offset + len)) lens := rfl

theorem layOut_within_iff (hwrap : ∀ x, 0 ≤ x → x ≤ top → wrap x = x) (hsize : size ≤ top) :
    ∀ (lens : List Nat) {offset : Int}, 0 ≤ offset → offset ≤ size →
      ((∀ r ∈ layOut wrap offset lens, r.Within size) ↔ offset + (lens.sum : Nat) ≤ size)
  | [], offset, _, hle => by simpa using hle
  | len :: lens, offset, h0, hle => by
    rw [layOut_cons, List.forall_mem_cons, List.sum_cons, Nat.cast_add]
    by_cases hfit : offset + len ≤ size
    · have hnext : wrap (offset + len) = offset + len := hwrap _ (by omega) (by omega)
      have ih := layOut_within_iff hwrap hsize lens
          (show 0 ≤ offset + (len : Int) by omega) hfit
      have hhead : Region.Within ⟨offset, len⟩ size := ⟨h0, hfit⟩
      rw [hnext, ih]
      constructor
      · rintro ⟨-, hrest⟩
        omega
      · intro hall
        exact ⟨hhead, by omega⟩
    · constructor
      · rintro ⟨hhead, -⟩
        exact absurd hhead.2 hfit
      · intro hall
        omega

/-- While there is room the walk only moves up. -/
theorem le_start_of_mem (hwrap : ∀ x, 0 ≤ x → x ≤ top → wrap x = x) :
    ∀ {lens : List Nat} {offset : Int}, 0 ≤ offset → offset + (lens.sum : Nat) ≤ top →
      ∀ r ∈ layOut wrap offset lens, offset ≤ r.start
  | [], _, _, _, _, hr => absurd hr List.not_mem_nil
  | len :: lens, offset, h0, hroom, r, hr => by
    rw [List.sum_cons, Nat.cast_add] at hroom
    rw [layOut_cons, hwrap (offset + len) (by omega) (by omega)] at hr
    rcases List.mem_cons.mp hr with rfl | hr
    · exact le_refl _
    · have hle : offset + len ≤ r.start := le_start_of_mem hwrap (by omega) (by omega) r hr
      omega

theorem layOut_apart (hwrap : ∀ x, 0 ≤ x → x ≤ top → wrap x = x) :
    ∀ {lens : List Nat} {offset : Int}, 0 ≤ offset → offset + (lens.sum : Nat) ≤ top →
      (layOut wrap offset lens).Pairwise Region.Apart
  | [], _, _, _ => List.Pairwise.nil
  | len :: lens, offset, h0, hroom => by
    rw [List.sum_cons, Nat.cast_add] at hroom
    rw [layOut_cons, hwrap (offset + len) (by omega) (by omega)]
    refine List.Pairwise.cons (fun r hr => .inl ?_) (layOut_apart hwrap (by omega) (by omega))
    exact le_start_of_mem hwrap (show 0 ≤ offset + (len : Int) by omega) (by omega) r hr

end Regions
