/-
Toadb.Executor.ExpreComputeTheorems — do the comparisons agree with one
order of the values?

The order of the integers is their own, that of the strings goes by length
and then by bytes (`stringRank`). Every comparison function is a test of the
place of its operands in that order (`int32Test_eq`, `stringTest_eq`), so all
depends on the tables: the one for `<` is the function for `<=`, and strings
have none for `<>`. An operator that is missing gives NULL, which
`ExecSelect` takes for true (`missing_selects`).
-/
import Mathlib.Order.Compare
import Toadb.Executor.ExpreCompute

namespace Toadb

open Shortlex (cmpShortlex cmpShortlex_eq)

/-! ## The tests -/

/-- What a comparison says of the place of its left operand against the right one. -/
def comparisonTest : ExprOpType → Option (Ordering → Bool)
  | .less => some (· == .lt)
  | .lessEqual => some (· != .gt)
  | .equal => some (· == .eq)
  | .greaterEqual => some (· != .lt)
  | .greater => some (· == .gt)
  | .notEqual => some (· != .eq)
  | _ => none

/-- The place of a string in the order of strings. -/
def stringRank (s : CString) : ℕ ×ₗ List Nat := Shortlex.rank (s.val.map UInt8.toNat)

theorem stringRank_inj {s t : CString} : stringRank s = stringRank t ↔ s = t := by
  rw [stringRank, stringRank, Shortlex.rank_inj]
  constructor
  · intro h
    exact Subtype.ext (List.map_injective_iff.mpr (fun a b hab => UInt8.toNat_inj.mp hab) h)
  · rintro rfl
    rfl

@[simp] theorem hatBool_true : hatBool true = 1 := rfl

@[simp] theorem hatBool_false : hatBool false = 0 := rfl

theorem hatBool_ne_zero (b : Bool) : (hatBool b != 0) = b := by
  cases b <;> rfl

variable {address : CString → BitVec 64}
  {floatTest : ExprOpType → BitVec 32 → BitVec 32 → Bool}
  {floatIsTrue : BitVec 32 ⊕ BitVec 64 → Bool}

/-- The truth of a comparison result. -/
theorem getDataBool_hatBool (b : Bool) :
    getDataBool address floatIsTrue (some (getDataInfo (hatBool b))) = b := by
  show ((Data.iData (hatBool b)).toInt address != 0) = b
  exact hatBool_ne_zero b

/-! ## The functions -/

theorem sle_eq_cmp (a b : BitVec 32) : a.sle b = (cmp a.toInt b.toInt != .gt) := by
  rw [Bool.eq_iff_iff, BitVec.sle_iff_toInt_le, bne_iff_ne, ne_eq, cmp_eq_gt_iff, not_lt]

theorem sge_eq_cmp (a b : BitVec 32) : b.sle a = (cmp a.toInt b.toInt != .lt) := by
  rw [Bool.eq_iff_iff, BitVec.sle_iff_toInt_le, bne_iff_ne, ne_eq, cmp_eq_lt_iff, not_lt]

theorem sgt_eq_cmp (a b : BitVec 32) : b.slt a = (cmp a.toInt b.toInt == .gt) := by
  rw [Bool.eq_iff_iff, BitVec.slt_iff_toInt_lt, beq_iff_eq, cmp_eq_gt_iff]

theorem beq_eq_cmp (a b : BitVec 32) : (a == b) = (cmp a.toInt b.toInt == .eq) := by
  rw [Bool.eq_iff_iff, beq_iff_eq, beq_iff_eq, cmp_eq_eq_iff, BitVec.toInt_inj]

/-- Two values of a type of integers. -/
structure IntegerPair (left right : ResultExpreData) (a b : BitVec 32) : Prop where
  type : left.type = .int ∨ left.type = .integer
  left : left.data = .iData a
  right : right.data = .iData b

/-- Two values of a type of strings. -/
structure StringPair (left right : ResultExpreData) (s t : CString) : Prop where
  type : left.type = .string ∨ left.type = .varchar
  left : left.data = .pData s
  right : right.data = .pData t

/-- The test that the tables hold: the place of `<` has the function of `<=`. -/
def tableTest (op : ExprOpType) (test : Ordering → Bool) : Ordering → Bool :=
  if op = .less then (· != .gt) else test

theorem tableTest_eq_iff {op : ExprOpType} {test : Ordering → Bool}
    (htest : comparisonTest op = some test)
    (o : Ordering) : tableTest op test o = test o ↔ ¬ (op = .less ∧ o = .eq) := by
  by_cases hless : op = .less
  · subst hless
    obtain rfl := Option.some.inj htest
    cases o <;> decide
  · simp [tableTest, hless]

theorem integer_computeExpr {left right : ResultExpreData} {a b : BitVec 32}
    (h : IntegerPair left right a b)
    {op : ExprOpType} {test : Ordering → Bool} (htest : comparisonTest op = some test) :
    computeExpr address floatTest left right op
      = some (some (getDataInfo (hatBool (tableTest op test (cmp a.toInt b.toInt))))) := by
  have hprocs : operatorOf address floatTest left.type op =
      integerDataTypeProcEntry address op := by
    rcases h.type with htype | htype <;> rw [operatorOf, htype] <;> rfl
  have hleft : left.data.toInt address = a := by
    rw [h.left]
    rfl
  have hright : right.data.toInt address = b := by
    rw [h.right]
    rfl
  rw [computeExpr, hprocs]
  cases op with
  | less | lessEqual =>
    obtain rfl := Option.some.inj htest
    show some
        (some (getDataInfo
          (hatBool ((left.data.toInt address).sle (right.data.toInt address))))) = _
    rw [hleft, hright, sle_eq_cmp]
    rfl
  | equal =>
    obtain rfl := Option.some.inj htest
    show some
        (some (getDataInfo (hatBool (left.data.toInt address == right.data.toInt address)))) =
        _
    rw [hleft, hright, beq_eq_cmp]
    rfl
  | greaterEqual =>
    obtain rfl := Option.some.inj htest
    show some
        (some (getDataInfo
          (hatBool ((right.data.toInt address).sle (left.data.toInt address))))) = _
    rw [hleft, hright, sge_eq_cmp]
    rfl
  | greater =>
    obtain rfl := Option.some.inj htest
    show some
        (some (getDataInfo
          (hatBool ((right.data.toInt address).slt (left.data.toInt address))))) = _
    rw [hleft, hright, sgt_eq_cmp]
    rfl
  | notEqual =>
    obtain rfl := Option.some.inj htest
    show some
        (some (getDataInfo (hatBool (left.data.toInt address != right.data.toInt address)))) =
        _
    rw [hleft, hright, bne, beq_eq_cmp]
    rfl
  | _ => cases htest

/-- The sizes and the bytes of two strings are their order. -/
theorem stringOrder_eq {left right : ResultExpreData} {s t : CString}
    (h : StringPair left right s t) :
    stringOrder address left right = some (cmp (stringRank s) (stringRank t)) := by
  unfold stringOrder stringGetSize
  rw [h.left, h.right, stringRank, stringRank, ← cmpShortlex_eq, cmpShortlex,
    List.length_map, List.length_map]
  simp only [Option.bind_eq_bind, Option.bind_some]
  unfold CString.strlen
  split
  · rename_i hgt
    rw [if_pos (Int.ofNat_lt.mp hgt)]
  · rename_i hgt
    rw [if_neg fun hlt => hgt (Int.ofNat_lt.mpr hlt)]
    split
    · rename_i hlt
      rw [if_pos (Int.ofNat_lt.mp hlt)]
    · rename_i hlt
      rw [if_neg fun hlt' => hlt (Int.ofNat_lt.mpr hlt')]
      unfold dataStrncmp
      split
      · rename_i hzero
        rw [Int.natCast_eq_zero.mp hzero, Shortlex.cmpFirst_zero]
      · rfl

theorem stringTest_eq {left right : ResultExpreData} {s t : CString}
    (h : StringPair left right s t) (test : Ordering → Bool) :
    stringTest address test left right =
      some (getDataInfo (hatBool (test (cmp (stringRank s) (stringRank t))))) := by
  rw [stringTest, stringOrder_eq h]
  rfl

theorem string_computeExpr {left right : ResultExpreData} {s t : CString}
    (h : StringPair left right s t)
    {op : ExprOpType} {test : Ordering → Bool} (htest : comparisonTest op = some test) :
    computeExpr address floatTest left right op
      = some (if op = .notEqual then none
          else some (getDataInfo
            (hatBool (tableTest op test (cmp (stringRank s) (stringRank t)))))) := by
  have hprocs : operatorOf address floatTest left.type op =
      stringDataTypeProcEntry address op := by
    rcases h.type with htype | htype <;> rw [operatorOf, htype] <;> rfl
  rw [computeExpr, hprocs]
  cases op with
  | less | lessEqual =>
    obtain rfl := Option.some.inj htest
    show (stringTest address (· != .gt) left right).map some = _
    rw [stringTest_eq h]
    rfl
  | equal =>
    obtain rfl := Option.some.inj htest
    show (stringTest address (· == .eq) left right).map some = _
    rw [stringTest_eq h]
    rfl
  | greaterEqual =>
    obtain rfl := Option.some.inj htest
    show (stringTest address (· != .lt) left right).map some = _
    rw [stringTest_eq h]
    rfl
  | greater =>
    obtain rfl := Option.some.inj htest
    show (stringTest address (· == .gt) left right).map some = _
    rw [stringTest_eq h]
    rfl
  | notEqual => rfl
  | _ => cases htest

/-! ## The result -/

/-- `ComputeExpr` gives a truth value, the one that the order has for the operation. -/
def AgreesWith (address : CString → BitVec 64)
    (floatTest : ExprOpType → BitVec 32 → BitVec 32 → Bool)
    (floatIsTrue : BitVec 32 ⊕ BitVec 64 → Bool) (left right : ResultExpreData)
    (op : ExprOpType) (o : Ordering) : Prop :=
  ∃ test result, comparisonTest op = some test ∧
    computeExpr address floatTest left right op = some (some result) ∧
    getDataBool address floatIsTrue (some result) = test o

theorem IntegerPair.agreesWith_iff {left right : ResultExpreData} {a b : BitVec 32}
    (h : IntegerPair left right a b)
    {op : ExprOpType} {test : Ordering → Bool} (htest : comparisonTest op = some test) :
    AgreesWith address floatTest floatIsTrue left right op (cmp a.toInt b.toInt) ↔
      ¬ (op = .less ∧ a = b) := by
  have heq : a = b ↔ cmp a.toInt b.toInt = .eq := by rw [cmp_eq_eq_iff, BitVec.toInt_inj]
  rw [heq, ← tableTest_eq_iff htest]
  unfold AgreesWith
  rw [integer_computeExpr h htest]
  constructor
  · rintro ⟨test', result, htest', hresult, htruth⟩
    obtain rfl := Option.some.inj (htest.symm.trans htest')
    obtain rfl := Option.some.inj (Option.some.inj hresult)
    rwa [getDataBool_hatBool] at htruth
  · intro htruth
    exact ⟨test, _, htest, rfl, by rw [getDataBool_hatBool, htruth]⟩

theorem StringPair.agreesWith_iff {left right : ResultExpreData} {s t : CString}
    (h : StringPair left right s t)
    {op : ExprOpType} {test : Ordering → Bool} (htest : comparisonTest op = some test) :
    AgreesWith address floatTest floatIsTrue left right op
      (cmp (stringRank s) (stringRank t)) ↔
      op ≠ .notEqual ∧ ¬ (op = .less ∧ s = t) := by
  have heq : s = t ↔ cmp (stringRank s) (stringRank t) = .eq := by
    rw [cmp_eq_eq_iff, stringRank_inj]
  rw [heq, ← tableTest_eq_iff htest]
  unfold AgreesWith
  rw [string_computeExpr h htest]
  constructor
  · rintro ⟨test', result, htest', hresult, htruth⟩
    obtain rfl := Option.some.inj (htest.symm.trans htest')
    by_cases hne : op = .notEqual
    · rw [if_pos hne] at hresult
      cases hresult
    · rw [if_neg hne] at hresult
      obtain rfl := Option.some.inj (Option.some.inj hresult)
      rw [getDataBool_hatBool] at htruth
      exact ⟨hne, htruth⟩
  · rintro ⟨hne, htruth⟩
    rw [if_neg hne]
    exact ⟨test, _, htest, rfl, by rw [getDataBool_hatBool, htruth]⟩

section Select

variable (address floatTest floatIsTrue) (rtable : List RangTblEntry)
  (row : Nat → Nat → ResultExpreData)

/-- The left value of an operation of a condition. -/
def leftOperand (lefttree : QualNode) (lrindex : Nat)
    (cell : ResultExpreData) : ResultExpreData :=
  (valueOps address floatTest floatIsTrue).operand lefttree
    (processQualExprNode (valueOps address floatTest floatIsTrue) rtable row
      lefttree lrindex cell).2

/-- A predicate with an operator that the type of its left value does not have counts as
true. -/
theorem missing_selects {op : ExprOpType} {lefttree : QualNode} {lrindex : Nat}
    {cell : ResultExpreData} (hmissing : operatorOf address floatTest
      (leftOperand address floatTest floatIsTrue rtable row lefttree lrindex cell).type op =
        none)
    (rtNum rrindex : Nat) (targetList : List TargetEntry) (righttree : QualNode) :
    execSelectQual (valueOps address floatTest floatIsTrue) rtable row
      (.exprEntry op rtNum lrindex rrindex targetList lefttree righttree) cell = true := by
  unfold leftOperand at hmissing
  unfold execSelectQual processQualExprNode
  dsimp only
  have hnull : ∀ right, (valueOps address floatTest floatIsTrue).computeExpr op
      ((valueOps address floatTest floatIsTrue).operand lefttree
        (processQualExprNode (valueOps address floatTest floatIsTrue) rtable row lefttree
          lrindex cell).2) right
        = none := by
    intro right
    show (computeExpr address floatTest _ right op).join = none
    rw [computeExpr, hmissing]
    rfl
  rw [hnull]
  rfl

/-- Integers agree with their order but for `<` on equal values, strings but for that and for
`<>`. A predicate with an operator that its type does not have always counts as true. -/
theorem comparison_right_iff :
    (∀ left right a b op test, IntegerPair left right a b → comparisonTest op = some test →
      (AgreesWith address floatTest floatIsTrue left right op (cmp a.toInt b.toInt) ↔
        ¬ (op = .less ∧ a = b))) ∧
    (∀ left right s t op test, StringPair left right s t → comparisonTest op = some test →
      (AgreesWith address floatTest floatIsTrue left right op
        (cmp (stringRank s) (stringRank t)) ↔
        op ≠ .notEqual ∧ ¬ (op = .less ∧ s = t))) ∧
    (∀ op lefttree lrindex cell, operatorOf address floatTest
        (leftOperand address floatTest floatIsTrue rtable row lefttree lrindex cell).type op =
          none →
      ∀ rtNum rrindex targetList righttree,
        execSelectQual (valueOps address floatTest floatIsTrue) rtable row
          (.exprEntry op rtNum lrindex rrindex targetList lefttree righttree) cell =
            true) := by
  refine ⟨?_, ?_, ?_⟩
  · intro left right a b op test h htest
    exact h.agreesWith_iff htest
  · intro left right s t op test h htest
    exact h.agreesWith_iff htest
  · intro op lefttree lrindex cell hmissing rtNum rrindex targetList righttree
    exact missing_selects address floatTest floatIsTrue rtable row hmissing rtNum rrindex
      targetList righttree

/-- `3 < 5` and `'a' <= 'b'` are as they should be. -/
theorem comparison_right_values :
    AgreesWith (fun _ => 0) (fun _ _ _ => false) (fun _ => false) ⟨.int, 4, .iData 3⟩
      ⟨.int, -1, .iData 5⟩ .less
      (cmp (3 : BitVec 32).toInt (5 : BitVec 32).toInt) ∧
    AgreesWith (fun _ => 0) (fun _ _ _ => false) (fun _ => false)
      ⟨.varchar, 17, .pData (cString [97])⟩
      ⟨.varchar, -1, .pData (cString [98])⟩ .lessEqual
        (cmp (stringRank (cString [97])) (stringRank (cString [98]))) := by
  obtain ⟨hinteger, hstring, -⟩ :=
    comparison_right_iff (fun _ => 0) (fun _ _ _ => false) (fun _ => false) []
      (fun _ _ => ⟨.unknown, 0, .iData 0⟩)
  refine ⟨(hinteger _ _ _ _ _ _ ⟨.inl rfl, rfl, rfl⟩ rfl).mpr ?_,
    (hstring _ _ _ _ _ _ ⟨.inr rfl, rfl, rfl⟩ rfl).mpr ?_⟩
  · rintro ⟨-, heq⟩
    exact absurd heq (by decide)
  · decide

/-- `5 < 5` is true, `'a' <> 'a'` has no result, and as a condition it selects the row. -/
theorem comparison_fails :
    ¬ AgreesWith (fun _ => 0) (fun _ _ _ => false) (fun _ => false) ⟨.int, 4, .iData 5⟩
      ⟨.int, -1, .iData 5⟩ .less .eq ∧
    ¬ AgreesWith (fun _ => 0) (fun _ _ _ => false) (fun _ => false)
      ⟨.varchar, 17, .pData (cString [97])⟩
      ⟨.varchar, -1, .pData (cString [97])⟩ .notEqual .eq ∧
    execSelectQual (valueOps (fun _ => 0) (fun _ _ _ => false) fun _ => false) []
      (fun _ _ => ⟨.unknown, 0, .iData 0⟩)
      (.exprEntry .notEqual 0 0 0 [] (.constValue ⟨.varchar, .pData (cString [97])⟩)
        (.constValue ⟨.varchar, .pData (cString [97])⟩)) ⟨.unknown, 0, .iData 0⟩ = true := by
  refine ⟨?_, ?_, rfl⟩
  · rintro ⟨test, result, htest, hresult, htruth⟩
    obtain rfl := Option.some.inj htest
    obtain rfl : getDataInfo 1 = result := Option.some.inj (Option.some.inj hresult)
    exact absurd htruth (by decide)
  · rintro ⟨test, result, htest, hresult, -⟩
    cases hresult

end Select

end Toadb
