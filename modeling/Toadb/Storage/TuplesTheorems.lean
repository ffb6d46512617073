/-
Toadb.Storage.TuplesTheorems — INSERT and UPDATE of the same literal.

The two ways to store a literal agree on one kind of literal only: `stored_alike_iff`. UPDATE
of a string copies the size of the whole column value, and UPDATE of a float writes through
NULL (`updateColumnData_string`, `updateColumnData_float`).
-/
import Toadb.Storage.Tuples

namespace Toadb

open Bytes (memcpy memcpy_eq)

/-! ## Words -/

@[simp] theorem length_wordBytes (w : BitVec 32) : (wordBytes w).length = 4 :=
  Bytes.length_ofNat 4 _

/-- A word that is stored is read back. -/
@[simp] theorem dataWord_wordBytes (w : BitVec 32) : dataWord (wordBytes w) = some w := by
  have hlt : w.toNat < 256 ^ 4 := w.isLt
  rw [dataWord, if_pos (by simp), List.take_of_length_le (by simp), wordBytes,
    Bytes.toNat_ofNat hlt, BitVec.ofNat_toNat, BitVec.setWidth_eq]

theorem wordBytes_inj {v w : BitVec 32} : wordBytes v = wordBytes w ↔ v = w := by
  constructor
  · intro h
    have hread := dataWord_wordBytes v
    rw [h, dataWord_wordBytes] at hread
    exact (Option.some.inj hread).symm
  · rintro rfl
    rfl

theorem new_inj {attrIndex : Nat} {as bs : List UInt8} :
    RowColumnData.new attrIndex as = .new attrIndex bs ↔ as = bs := by
  constructor
  · intro h
    exact congrArg RowColumnData.data h
  · rintro rfl
    rfl

/-! ## Strings -/

@[simp] theorem cString_bytes (s : CString) : cString s.bytes = s := by
  apply Subtype.ext
  have hall : ∀ b ∈ s.val, decide (b ≠ 0) = true := by
    intro b hb
    have hne : b ≠ 0 := by
      rintro rfl
      exact s.property hb
    exact decide_eq_true hne
  change (s.val ++ [0]).takeWhile (fun b => decide (b ≠ 0)) = s.val
  rw [List.takeWhile_append_of_pos hall]
  simp

/-- A text without 0 is what is in front of the 0. -/
theorem cString_self (s : CString) : cString s.val = s := by
  apply Subtype.ext
  change s.val.takeWhile (fun b => decide (b ≠ 0)) = s.val
  rw [List.takeWhile_eq_self_iff]
  intro b hb
  refine decide_eq_true ?_
  rintro rfl
  exact s.property hb

/-- The string ends before the bytes behind it. -/
theorem cString_append (s : CString) (rest : List UInt8) : cString (s.bytes ++ rest) = s := by
  apply Subtype.ext
  have hall : ∀ b ∈ s.val, decide (b ≠ 0) = true := by
    intro b hb
    have hne : b ≠ 0 := by
      rintro rfl
      exact s.property hb
    exact decide_eq_true hne
  change ((s.val ++ [0]) ++ rest).takeWhile (fun b => decide (b ≠ 0)) = s.val
  rw [List.append_assoc, List.takeWhile_append_of_pos hall]
  simp

theorem length_bytes (s : CString) : s.bytes.length = s.strlen + 1 := by
  rw [CString.bytes, List.length_append]
  rfl

/-- A whole string is copied. -/
theorem memcpy_bytes (s : CString) :
    memcpy (s.strlen + 1) [] s.bytes ((s.strlen + 1 : Nat) : Int) = some s.bytes := by
  rw [memcpy_eq (by rw [length_bytes]) (by simp), List.nil_append,
    List.take_of_length_le (by rw [length_bytes])]

/-! ## What UPDATE stores -/

section Update

variable (address : CString → BitVec 64) (attrIndex : Nat)

theorem updateColumnData_int (i : BitVec 32) :
    updateColumnData address (Literal.int i).constValue attrIndex =
      some (some (.new attrIndex (wordBytes i))) := rfl

/-- More bytes are copied than the string has, and than the column value has room for. -/
theorem updateColumnData_string (s : CString) :
    updateColumnData address (Literal.string s).constValue attrIndex = none := by
  have hover : memcpy (s.strlen + 1 + rowColumnDataSize - rowColumnDataSize) [] s.bytes
      ((s.strlen + 1 + rowColumnDataSize : Nat) : Int) = none := by
    rw [memcpy, if_neg]
    rw [length_bytes, rowColumnDataSize]
    omega
  simp only [updateColumnData, Literal.constValue, transformConstExprValue, Data.toStr,
    Option.bind_eq_bind, Option.bind_some, Option.pure_def, memcpy_bytes,
      transFormExpr2RowColumnData,
    cString_bytes, hover, Option.bind_none]

theorem updateColumnData_float (bits : BitVec 32) :
    updateColumnData address (Literal.float bits).constValue attrIndex = none := rfl

end Update

/-! ## The two ways to store -/

/-- The value that a literal has in a column, when it is one of the column's type. A `char`
column has room for one character. -/
def Literal.valueIn : Literal → ValueType → Option Data
  | .int i, .int | .int i, .integer => some (.iData i)
  | .int i, .double | .int i, .float => some (.fData (floatOfInt i))
  | .int i, .bool => some (.iData (if i = 0 then 0 else 1))
  | .float bits, .double | .float bits, .float => some (.fData bits)
  | .string s, .varchar | .string s, .string => some (.pData s)
  | .string s, .char => if s.strlen = 1 then some (.pData s) else none
  | _, _ => none

/-- INSERT and UPDATE store the same column value, with no copy out of bounds, and it is read
back as the literal's value. -/
def StoredAlike (address : CString → BitVec 64) (type : ValueType) (lit : Literal)
    (attrIndex : Nat) : Prop :=
  ∃ row value, transformConstValueRowData address lit.constValue type attrIndex = some row ∧
    updateColumnData address lit.constValue attrIndex = some (some row) ∧
    translateRawColumnData row type = some (some value) ∧ lit.valueIn type = some value

/-- An `int` literal is stored alike in an `int` column, and in a float column when it has the
bits of the float. -/
theorem stored_alike_int (address : CString → BitVec 64) (type : ValueType) (i : BitVec 32)
    (attrIndex : Nat) : StoredAlike address type (.int i) attrIndex ↔
      type = .int ∨ type = .integer ∨ (type = .double ∨ type = .float) ∧
        floatOfInt i = i := by
  have hupdate := updateColumnData_int address attrIndex i
  have hint : ∀ t, t = ValueType.int ∨ t = .integer →
      StoredAlike address t (.int i) attrIndex := by
    rintro t (rfl | rfl)
    · exact ⟨.new attrIndex (wordBytes i), .iData i, rfl, hupdate,
        by simp [translateRawColumnData, RowColumnData.new], rfl⟩
    · exact ⟨.new attrIndex (wordBytes i), .iData i, rfl, hupdate,
        by simp [translateRawColumnData, RowColumnData.new], rfl⟩
  have hfloat : ∀ t, t = ValueType.double ∨ t = .float →
      (StoredAlike address t (.int i) attrIndex ↔ floatOfInt i = i) := by
    intro t ht
    have hinsert : transformConstValueRowData address (Literal.int i).constValue t attrIndex =
        some (.new attrIndex (wordBytes (floatOfInt i))) := by
      rcases ht with rfl | rfl <;> rfl
    have hread : translateRawColumnData (.new attrIndex (wordBytes i)) t =
        some (some (.fData i)) := by
      rcases ht with rfl | rfl <;> simp [translateRawColumnData, RowColumnData.new]
    have hvalue : (Literal.int i).valueIn t = some (.fData (floatOfInt i)) := by
      rcases ht with rfl | rfl <;> rfl
    constructor
    · rintro ⟨row, value, hrow, hrow', -, -⟩
      rw [hinsert] at hrow
      rw [hupdate, ← hrow] at hrow'
      exact (wordBytes_inj.mp (new_inj.mp (Option.some.inj (Option.some.inj hrow')))).symm
    · intro h
      rw [h] at hinsert hvalue
      exact ⟨_, _, hinsert, hupdate, hread, hvalue⟩
  have hnone : ∀ t,
      transformConstValueRowData address (Literal.int i).constValue t attrIndex = none →
      ¬ StoredAlike address t (.int i) attrIndex := by
    rintro t h ⟨row, value, hrow, -⟩
    rw [h] at hrow
    cases hrow
  cases type with
  | int => exact ⟨fun _ => .inl rfl, fun _ => hint _ (.inl rfl)⟩
  | integer => exact ⟨fun _ => .inr (.inl rfl), fun _ => hint _ (.inr rfl)⟩
  | double => simpa using hfloat .double (.inl rfl)
  | float => simpa using hfloat .float (.inr rfl)
  | bool =>
    have hne : ¬ StoredAlike address .bool (.int i) attrIndex := by
      rintro ⟨row, value, hrow, hrow', -, -⟩
      rw [hupdate] at hrow'
      rw [← Option.some.inj (Option.some.inj hrow')] at hrow
      -- one byte is not four
      have hlen := congrArg List.length (new_inj.mp (Option.some.inj hrow))
      simp at hlen
    simpa using hne
  | unknown => simpa using hnone .unknown rfl
  | pointer => simpa using hnone .pointer rfl
  | varchar => simpa using hnone .varchar rfl
  | string => simpa using hnone .string rfl
  | char => simpa using hnone .char rfl

/-- INSERT and UPDATE of a literal agree exactly for an `int` in an `int` column, and for an
`int` with the bits of its float in a float column. -/
theorem stored_alike_iff (address : CString → BitVec 64) (type : ValueType) (lit : Literal)
    (attrIndex : Nat) : StoredAlike address type lit attrIndex ↔
      ∃ i, lit = .int i ∧
        (type = .int ∨ type = .integer ∨ (type = .double ∨ type = .float) ∧
          floatOfInt i = i) := by
  cases lit with
  | int i =>
    rw [stored_alike_int]
    constructor
    · intro h
      exact ⟨i, rfl, h⟩
    · rintro ⟨j, hj, h⟩
      rwa [Literal.int.inj hj]
  | string s =>
    constructor
    · rintro ⟨row, value, -, hrow, -⟩
      rw [updateColumnData_string] at hrow
      cases hrow
    · rintro ⟨i, hi, -⟩
      cases hi
  | float bits =>
    constructor
    · rintro ⟨row, value, -, hrow, -⟩
      rw [updateColumnData_float] at hrow
      cases hrow
    · rintro ⟨i, hi, -⟩
      cases hi

/-- `UPDATE … SET name = 'a'` copies past the end of the string. -/
theorem updateString_not_alike :
    ¬ ∀ (address : CString → BitVec 64) (type : ValueType) (lit : Literal) (attrIndex : Nat),
      lit.valueIn type ≠ none → StoredAlike address type lit attrIndex := by
  intro h
  obtain ⟨row, value, -, hrow, -⟩ :=
    h (fun _ => 0) .varchar (.string (cString [97])) 0 nofun
  rw [updateColumnData_string] at hrow
  cases hrow

end Toadb
