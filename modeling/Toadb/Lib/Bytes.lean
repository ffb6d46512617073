/-
Toadb.Lib.Bytes — numbers as bytes, and a flat memory of bytes.

  * `ofNat` / `toNat`   — the little-endian digits of a number, and back;
  * `splitNat`          — take one number off the front of a byte list, with
                          `splitNat_ofNat` for a list that starts with one;
  * `read` / `write`    — a block of a memory addressed by integers, with the
                          two laws `read_write` (the block just written) and
                          `read_write_of_disjoint` (every block beside it);
  * `memcpy`            — a copy between two buffers that is checked against both.

Nothing here names a particular format.
-/
import Mathlib.Data.Nat.Init
import Mathlib.Algebra.Order.Ring.Nat
import Mathlib.Tactic.Ring

namespace Bytes

/-! ## Numbers -/

/-- The `w` little-endian bytes of a number. -/
def ofNat : Nat → Nat → List UInt8
  | 0, _ => []
  | w + 1, v => UInt8.ofNat (v % 256) :: ofNat w (v / 256)

/-- The number with the given little-endian bytes. -/
def toNat : List UInt8 → Nat
  | [] => 0
  | b :: bs => b.toNat + 256 * toNat bs

@[simp] theorem length_ofNat (w v : Nat) : (ofNat w v).length = w := by
  induction w generalizing v with
  | zero => rfl
  | succ w ih => simp [ofNat, ih]

theorem toNat_ofNat {w v : Nat} (h : v < 256 ^ w) : toNat (ofNat w v) = v := by
  induction w generalizing v with
  | zero =>
    have hv : v = 0 := by simpa using h
    simp [ofNat, toNat, hv]
  | succ w ih =>
    have hdiv : v / 256 < 256 ^ w := by
      rw [pow_succ, Nat.mul_comm] at h
      exact Nat.div_lt_of_lt_mul h
    have hdigit : (UInt8.ofNat (v % 256)).toNat = v % 256 := by
      simp
    rw [ofNat, toNat, hdigit, ih hdiv]
    omega

theorem toNat_lt (bs : List UInt8) : toNat bs < 256 ^ bs.length := by
  induction bs with
  | nil => simp [toNat]
  | cons b bs ih =>
    have hb : b.toNat < 256 := b.toNat_lt
    rw [toNat, List.length_cons, pow_succ]
    omega

/-- The digits of a list of bytes are these bytes. -/
theorem ofNat_toNat (bs : List UInt8) : ofNat bs.length (toNat bs) = bs := by
  induction bs with
  | nil => rfl
  | cons b bs ih =>
    have hb : b.toNat < 256 := b.toNat_lt
    have hmod : (b.toNat + 256 * toNat bs) % 256 = b.toNat := by omega
    have hdiv : (b.toNat + 256 * toNat bs) / 256 = toNat bs := by omega
    rw [toNat, List.length_cons, ofNat, hmod, hdiv, ih, UInt8.ofNat_toNat]

/-- Take a number of `w` bytes off the front. -/
def splitNat (w : Nat) (bs : List UInt8) : Nat × List UInt8 := (toNat (bs.take w), bs.drop w)

theorem splitNat_ofNat {w v : Nat} (h : v < 256 ^ w) (rest : List UInt8) :
    splitNat w (ofNat w v ++ rest) = (v, rest) := by
  have hlen : (ofNat w v).length = w := length_ofNat w v
  rw [splitNat, List.take_left' hlen, List.drop_left' hlen, toNat_ofNat h]

/-! ## Memory -/

/-- The bytes from address `o` on. -/
def read (mem : Int → UInt8) : Int → Nat → List UInt8
  | _, 0 => []
  | o, n + 1 => mem o :: read mem (o + 1) n

/-- Overwrite the bytes from address `o` on. -/
def write (mem : Int → UInt8) (o : Int) (bs : List UInt8) : Int → UInt8 := fun a =>
  if o ≤ a then (bs[(a - o).toNat]?).getD (mem a) else mem a

@[simp] theorem length_read (mem : Int → UInt8) (o : Int) (n : Nat) :
    (read mem o n).length = n := by
  induction n generalizing o with
  | zero => rfl
  | succ n ih => simp [read, ih]

theorem getElem?_read {mem : Int → UInt8} {o : Int} {n i : Nat} (h : i < n) :
    (read mem o n)[i]? = some (mem (o + i)) := by
  induction n generalizing o i with
  | zero => omega
  | succ n ih =>
    cases i with
    | zero => simp [read]
    | succ i =>
      rw [read, List.getElem?_cons_succ, ih (by omega)]
      congr 2
      push_cast
      ring

/-- A block depends on its own addresses only. -/
theorem read_congr {mem mem' : Int → UInt8} {o : Int} {n : Nat}
    (h : ∀ a, o ≤ a → a < o + n → mem a = mem' a) : read mem o n = read mem' o n := by
  apply List.ext_getElem?
  intro i
  by_cases hi : i < n
  · rw [getElem?_read hi, getElem?_read hi, h (o + i) (by omega) (by omega)]
  · rw [List.getElem?_eq_none (by simp; omega), List.getElem?_eq_none (by simp; omega)]

theorem write_of_outside {mem : Int → UInt8} {o a : Int} {bs : List UInt8}
    (h : a < o ∨ o + bs.length ≤ a) : write mem o bs a = mem a := by
  unfold write
  split
  · rw [List.getElem?_eq_none (by omega), Option.getD_none]
  · rfl

/-- The block just written. -/
theorem read_write (mem : Int → UInt8) (o : Int) (bs : List UInt8) :
    read (write mem o bs) o bs.length = bs := by
  apply List.ext_getElem?
  intro i
  by_cases hi : i < bs.length
  · have hpos : o ≤ o + (i : Int) := by omega
    have hidx : (o + (i : Int) - o).toNat = i := by omega
    rw [getElem?_read hi, write, if_pos hpos, hidx,
      List.getElem?_eq_getElem hi, Option.getD_some]
  · rw [List.getElem?_eq_none (by simp; omega), List.getElem?_eq_none (by omega)]

/-- A block beside the one just written. -/
theorem read_write_of_disjoint {mem : Int → UInt8} {o o' : Int} {bs : List UInt8} {n : Nat}
    (h : o' + n ≤ o ∨ o + bs.length ≤ o') : read (write mem o bs) o' n = read mem o' n :=
  read_congr fun a hle hlt => write_of_outside (by omega)

theorem take_read {mem : Int → UInt8} {o : Int} {n k : Nat} (h : k ≤ n) :
    (read mem o n).take k = read mem o k := by
  apply List.ext_getElem?
  intro i
  by_cases hi : i < k
  · rw [List.getElem?_take, if_pos hi, getElem?_read (by omega), getElem?_read hi]
  · rw [List.getElem?_take, if_neg hi, List.getElem?_eq_none (by simp; omega)]

/-- Two blocks, one after the other. -/
theorem read_add (mem : Int → UInt8) (o : Int) (n k : Nat) :
    read mem o (n + k) = read mem o n ++ read mem (o + n) k := by
  induction n generalizing o with
  | zero => simp [read]
  | succ n ih =>
    have hnext : o + 1 + (n : Int) = o + ((n + 1 : Nat) : Int) := by
      push_cast
      ring
    rw [Nat.add_right_comm, read, read, ih (o + 1), hnext, List.cons_append]

theorem drop_read {mem : Int → UInt8} {o : Int} {n k : Nat} (h : k ≤ n) :
    (read mem o n).drop k = read mem (o + k) (n - k) := by
  have hsplit := read_add mem o k (n - k)
  rw [Nat.add_sub_cancel' h] at hsplit
  rw [hsplit, List.drop_left' (length_read mem o k)]

/-- A part of the block just written. -/
theorem read_write_inside {mem : Int → UInt8} {o : Int} {bs : List UInt8} {k n : Nat}
    (h : k + n ≤ bs.length) :
    read (write mem o bs) (o + k) n = (bs.drop k).take n := by
  have hpart := congrArg (List.drop k) (read_write mem o bs)
  rw [drop_read (by omega)] at hpart
  rw [← hpart, take_read (by omega)]

/-! ## Checked copies -/

/-- A copy of `n` bytes of `src` behind the bytes `dst` of a buffer with room for `capacity`
bytes, or `none` when it leaves one of the two. A negative `n` asks for more bytes than there
are. -/
def memcpy (capacity : Nat) (dst src : List UInt8) (n : Int) : Option (List UInt8) :=
  if 0 ≤ n ∧ n ≤ src.length ∧ dst.length + n ≤ capacity then some (dst ++ src.take n.toNat)
  else none

theorem memcpy_eq {capacity n : Nat} {dst src : List UInt8} (hsrc : n ≤ src.length)
    (hdst : dst.length + n ≤ capacity) :
    memcpy capacity dst src n = some (dst ++ src.take n) := by
  rw [memcpy, if_pos (by omega), Int.toNat_natCast]

theorem memcpy_neg {capacity : Nat} {dst src : List UInt8} {n : Int} (h : n < 0) :
    memcpy capacity dst src n = none :=
  if_neg (by omega)

theorem memcpy_full {capacity n : Nat} {dst src : List UInt8}
    (h : capacity < dst.length + n) :
    memcpy capacity dst src n = none :=
  if_neg (by omega)

end Bytes
