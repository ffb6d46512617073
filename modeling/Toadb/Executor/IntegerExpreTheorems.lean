/-
Toadb.Executor.IntegerExpreTheorems — is the arithmetic of an expression
that of the integers?

`AllSteps` says something of every operation that the executor comes to,
with the operands that it has there. Two evaluators whose values go together
go together over a whole tree (`allSteps_simulates`). One is that of the
code, the other computes with the integers (`exactOps`); an operation of the
code is right when the result of the other fits (`safeStep_iff`).

Nothing in the code asks whether it does. A divisor may be 0, a sum keeps
its low bits, and both unary operators take the absolute value first.
-/
import Toadb.Lib.Exact
import Toadb.Executor.ExpreCompute
import Toadb.Executor.ExecExpreTheorems

namespace Toadb

/-! ## Steps -/

/-- The constants of a condition. -/
def QualNode.constants : QualNode → List ConstValue
  | .constValue c => [c]
  | .exprEntry _ _ _ _ _ lefttree righttree => lefttree.constants ++ righttree.constants
  | .mergerEntry _ _ lefttree righttree => lefttree.constants ++ righttree.constants
  | .null | .columnRef _ | .functionClause _ => []

section Steps

variable {V : Type} (ops : ExprOps V) (rtable : List RangTblEntry) (row : Nat → Nat → V)
  (P : ExprOpType → V → V → Prop)

/-- Every operation that `ProcessQualExprNode` comes to has operands of which `P` holds. -/
def AllSteps : QualNode → V → Prop
  | .exprEntry op _ lrindex rrindex _ lefttree righttree, cell =>
    let leftCell := (processQualExprNode ops rtable row lefttree lrindex cell).2
    let rightCell := (processQualExprNode ops rtable row righttree rrindex leftCell).2
    AllSteps lefttree cell ∧ AllSteps righttree leftCell ∧
      P op (ops.operand lefttree leftCell) (ops.operand righttree rightCell)
  | .mergerEntry _ _ lefttree righttree, cell =>
    AllSteps lefttree cell ∧
      AllSteps righttree (processQualExprNode ops rtable row lefttree 0 cell).2
  | .null, _ | .columnRef _, _ | .constValue _, _ | .functionClause _, _ => True

end Steps

section Simulates

variable {V V' : Type}

/-- Values that go together stay so, as long as the steps have the property. -/
structure Simulates (ops : ExprOps V) (ops' : ExprOps V') (R : V → V' → Prop)
    (P : ExprOpType → V → V → Prop) (P' : ExprOpType → V' → V' → Prop) : Prop where
  zero : R ops.zero ops'.zero
  boolValue : ∀ b, R (ops.boolValue b) (ops'.boolValue b)
  getDataBool : ∀ {v v'}, R v v' → ops.getDataBool v = ops'.getDataBool v'
  step_iff : ∀ {op left right left' right'}, R left left' → R right right' →
    (P op left right ↔ P' op left' right')
  computeExpr : ∀ {op left right left' right'}, R left left' → R right right' →
    P' op left' right' →
    Option.Rel R (ops.computeExpr op left right) (ops'.computeExpr op left' right')

variable {ops : ExprOps V} {ops' : ExprOps V'} {R : V → V' → Prop}
  {P : ExprOpType → V → V → Prop}
  {P' : ExprOpType → V' → V' → Prop} {rtable : List RangTblEntry} {row : Nat → Nat → V}
  {row' : Nat → Nat → V'}

theorem Simulates.operand (h : Simulates ops ops' R P P') (node : QualNode)
    {cell : V} {cell' : V'}
    (hcell : R cell cell') : R (ops.operand node cell) (ops'.operand node cell') := by
  cases node with
  | null => exact h.zero
  | _ => exact hcell

/-- What an operation leaves in the cell: its result, or what its right side left there. -/
theorem processQualExprNode_exprEntry_cell (op : ExprOpType) (rtNum lrindex rrindex : Nat)
    (targetList : List TargetEntry) (lefttree righttree : QualNode)
    (rindex : Nat) (cell : V) :
    (processQualExprNode ops rtable row
      (.exprEntry op rtNum lrindex rrindex targetList lefttree righttree)
        rindex cell).2 =
      let leftCell := (processQualExprNode ops rtable row lefttree lrindex cell).2
      let rightCell := (processQualExprNode ops rtable row righttree rrindex leftCell).2
      (ops.computeExpr op (ops.operand lefttree leftCell)
        (ops.operand righttree rightCell)).getD
        rightCell := by
  simp only [processQualExprNode]
  split
  next hnone => rw [hnone, Option.getD_none]
  next value hsome => rw [hsome, Option.getD_some]

theorem rel_getD {o : Option V} {o' : Option V'} (h : Option.Rel R o o')
    {cell : V} {cell' : V'} (hcell : R cell cell') : R (o.getD cell) (o'.getD cell') := by
  cases h with
  | none => exact hcell
  | some hvalue => exact hvalue

theorem allSteps_simulates (h : Simulates ops ops' R P P')
    {node : QualNode} {rindex : Nat}
    (hrow : ∀ c ∈ columnsRead rtable node rindex, R (row c.1 c.2) (row' c.1 c.2))
    (hconst : ∀ c ∈ node.constants, R (ops.constValue c) (ops'.constValue c))
    {cell : V} {cell' : V'} (hcell : R cell cell') :
    (AllSteps ops rtable row P node cell ↔ AllSteps ops' rtable row' P' node cell') ∧
      (AllSteps ops' rtable row' P' node cell' →
        R (processQualExprNode ops rtable row node rindex cell).2
          (processQualExprNode ops' rtable row' node rindex cell').2) := by
  induction node generalizing rindex cell cell' with
  | null | functionClause => exact ⟨Iff.rfl, fun _ => hcell⟩
  | constValue c => exact ⟨Iff.rfl, fun _ => hconst c (List.mem_singleton_self c)⟩
  | columnRef columnRef =>
    refine ⟨Iff.rfl, ?_⟩
    intro _
    simp only [columnsRead] at hrow
    simp only [processQualExprNode, getExprDataColumnValue]
    cases hrte : getCellValueByIndex rtable rindex with
    | none => exact hcell
    | some rte =>
      rw [hrte] at hrow
      exact hrow _ (List.mem_singleton_self _)
  | exprEntry op rtNum lrindex rrindex targetList lefttree righttree ihl ihr =>
    obtain ⟨hleft, hleftCell⟩ := ihl (fun c hc => hrow c (List.mem_append_left _ hc))
      (fun c hc => hconst c (List.mem_append_left _ hc)) hcell
    -- the right side starts from the cell that the left side leaves, once the left side is
    -- right
    have hright : AllSteps ops' rtable row' P' lefttree cell' → _ := fun hsteps =>
      ihr (fun c hc => hrow c (List.mem_append_right _ hc))
        (fun c hc => hconst c (List.mem_append_right _ hc)) (hleftCell hsteps)
    constructor
    · simp only [AllSteps]
      rw [hleft]
      refine and_congr_right fun hsteps => ?_
      rw [(hright hsteps).1]
      refine and_congr_right fun hsteps' => ?_
      exact h.step_iff (h.operand lefttree (hleftCell hsteps))
        (h.operand righttree ((hright hsteps).2 hsteps'))
    · intro hall
      obtain ⟨hsteps, hsteps', hstep⟩ := hall
      have hrightCell := (hright hsteps).2 hsteps'
      rw [processQualExprNode_exprEntry_cell, processQualExprNode_exprEntry_cell]
      exact rel_getD (h.computeExpr (h.operand lefttree (hleftCell hsteps))
        (h.operand righttree hrightCell) hstep) hrightCell
  | mergerEntry mergeType targetList lefttree righttree ihl ihr =>
    obtain ⟨hleft, hleftCell⟩ := ihl (fun c hc => hrow c (List.mem_append_left _ hc))
      (fun c hc => hconst c (List.mem_append_left _ hc)) hcell
    have hright : AllSteps ops' rtable row' P' lefttree cell' → _ := fun hsteps =>
      ihr (fun c hc => hrow c (List.mem_append_right _ hc))
        (fun c hc => hconst c (List.mem_append_right _ hc)) (hleftCell hsteps)
    constructor
    · simp only [AllSteps]
      rw [hleft]
      exact and_congr_right fun hsteps => (hright hsteps).1
    · intro hall
      obtain ⟨hsteps, hsteps'⟩ := hall
      simp only [processQualExprNode]
      rw [h.getDataBool (h.operand lefttree (hleftCell hsteps)),
        h.getDataBool (h.operand righttree ((hright hsteps).2 hsteps'))]
      exact h.boolValue _

end Simulates

/-! ## The integers -/

/-- The integer of an operation, which takes `a` and `b` for what they are. -/
def mathResult : ExprOpType → Int → Int → Option Int
  | .positive, a, _ => some a
  | .negative, a, _ => some (-a)
  | .plus, a, b => some (a + b)
  | .minus, a, b => some (a - b)
  | .multiple, a, b => some (a * b)
  | _, _, _ => none

/-- A truth value as an integer. -/
def hatInt (b : Bool) : Int := if b then 1 else 0

/-- The operations on integers of any size; the entry for `<` is that for `<=`, and there is
no result where the division of C has none. -/
def exactCompute : ExprOpType → Int → Int → Option Int
  | .less, a, b => some (hatInt (a ≤ b))
  | .lessEqual, a, b => some (hatInt (a ≤ b))
  | .equal, a, b => some (hatInt (a = b))
  | .greaterEqual, a, b => some (hatInt (b ≤ a))
  | .greater, a, b => some (hatInt (b < a))
  | .notEqual, a, b => some (hatInt (a ≠ b))
  | .division, a, b => if b = 0 then none else some (a.tdiv b)
  | .mod, a, b => if b = 0 then none else some (a.tmod b)
  | op, a, b => mathResult op a b

/-- The operator functions of the integers. `none` is a value that was never set, which is 0
on the right of an operation. -/
def exactOps : ExprOps (Option Int) where
  zero := none
  constValue constValue :=
    match constValue.val with
    | .iData i => some i.toInt
    | _ => none
  boolValue b := some (hatInt b)
  getDataBool value := value.any (· != 0)
  computeExpr op left right := (left.bind fun a => exactCompute op a (right.getD 0)).map some

/-- The operation has an operand, and its result is an `int`; a unary operator gives the
absolute value or its negative, and the least `int` is the negative of itself. -/
def StepFits (op : ExprOpType) (left right : Option Int) : Prop :=
  match op with
  | .positive => ∃ a, left = some a ∧ (0 ≤ a ∨ a = -2 ^ 31)
  | .negative => ∃ a, left = some a ∧ 0 ≤ a
  | .plus => ∃ a, left = some a ∧ Exact.Fits 32 (a + right.getD 0)
  | .minus => ∃ a, left = some a ∧ Exact.Fits 32 (a - right.getD 0)
  | .multiple => ∃ a, left = some a ∧ Exact.Fits 32 (a * right.getD 0)
  | .division | .mod =>
    ∀ a, left = some a → right.getD 0 ≠ 0 ∧ ¬ (a = -2 ^ 31 ∧ right.getD 0 = -1)
  | _ => True

/-! ## The values -/

/-- A value of a type of integers. -/
def ResultExpreData.IsInteger (value : ResultExpreData) : Prop :=
  (value.type = .int ∨ value.type = .integer) ∧ ∃ i, value.data = .iData i

/-- A value that was never set. -/
def ResultExpreData.IsUnset (value : ResultExpreData) : Prop :=
  value.type = .unknown ∧ value.data = .iData 0

/-- An integer constant. -/
def ConstValue.IsInteger (constValue : ConstValue) : Prop :=
  (constValue.vt = .int ∨ constValue.vt = .integer) ∧ ∃ i, constValue.val = .iData i

/-- The integer of a value. -/
def exactValue (value : ResultExpreData) : Option Int :=
  match value.type, value.data with
  | .unknown, _ => none
  | _, .iData i => some i.toInt
  | _, _ => none

variable {address : CString → BitVec 64}
  {floatTest : ExprOpType → BitVec 32 → BitVec 32 → Bool}
  {floatIsTrue : BitVec 32 ⊕ BitVec 64 → Bool}

/-- The operation goes on, and a result that is arithmetic is that of the integers. -/
def SafeStep (address : CString → BitVec 64)
    (floatTest : ExprOpType → BitVec 32 → BitVec 32 → Bool)
    (op : ExprOpType) (left right : ResultExpreData) : Prop :=
  computeExpr address floatTest left right op ≠ none ∧
    ∀ exact, mathResult op (left.data.toInt address).toInt (right.data.toInt address).toInt =
      some exact →
      ∃ value, computeExpr address floatTest left right op = some (some value) ∧
        (value.data.toInt address).toInt = exact

/-- The value holds this integer, or was never set. -/
inductive Holds : ResultExpreData → Option Int → Prop
  | unset {value : ResultExpreData} (h : value.IsUnset) : Holds value none
  | integer {value : ResultExpreData} {i : BitVec 32}
      (htype : value.type = .int ∨ value.type = .integer)
      (hdata : value.data = .iData i) : Holds value (some i.toInt)

theorem holds_of_isInteger {value : ResultExpreData} (h : value.IsInteger) :
    Holds value (exactValue value) := by
  obtain ⟨htype, i, hdata⟩ := h
  have hvalue : exactValue value = some i.toInt := by
    rcases htype with htype | htype <;> rw [exactValue, htype, hdata]
  rw [hvalue]
  exact .integer htype hdata

theorem holds_of_isUnset {value : ResultExpreData} (h : value.IsUnset) :
    Holds value (exactValue value) := by
  have hvalue : exactValue value = none := by
    rw [exactValue, h.1]
  rw [hvalue]
  exact .unset h

/-- The right operand of an operation. -/
theorem Holds.toInt_eq {value : ResultExpreData} {x : Option Int} (h : Holds value x) :
    (value.data.toInt address).toInt = x.getD 0 := by
  cases h with
  | unset h =>
    rw [h.2]
    rfl
  | integer _ hdata =>
    rw [hdata]
    rfl

theorem hatBool_toInt (b : Bool) : (hatBool b).toInt = hatInt b := by
  cases b <;> rfl

theorem holds_getDataInfo (i : BitVec 32) : Holds (getDataInfo i) (some i.toInt) :=
  .integer (.inl rfl) rfl

theorem holds_hatBool (b : Bool) : Holds (getDataInfo (hatBool b)) (some (hatInt b)) := by
  rw [← hatBool_toInt]
  exact holds_getDataInfo _

/-! ## The operators -/

/-- The division of C has a result. -/
theorem divisible_iff (a b : BitVec 32) :
    divisible a b = true ↔ b.toInt ≠ 0 ∧ ¬ (a.toInt = -2 ^ 31 ∧ b.toInt = -1) := by
  have hzero : b.toInt = 0 ↔ b = 0 := BitVec.toInt_inj (y := 0)
  have hmin : a.toInt = -2 ^ 31 ↔ a = BitVec.intMin 32 :=
    BitVec.toInt_inj (y := BitVec.intMin 32)
  have hone : b.toInt = -1 ↔ b = -1 := BitVec.toInt_inj (y := -1)
  rw [ne_eq, hzero, hmin, hone]
  simp only [divisible, Bool.and_eq_true, bne_iff_ne, ne_eq, Bool.not_eq_true',
    Bool.and_eq_false_iff,
    beq_eq_false_iff_ne, not_and_or]

/-- The operation divides. -/
def ExprOpType.divides (op : ExprOpType) : Bool := op == .division || op == .mod

theorem mul_minus_one (a : BitVec 32) : a * -1 = -a :=
  (BitVec.mul_neg a 1).trans (congrArg _ (BitVec.mul_one a))

/-- A division that C does not have. -/
theorem intOps_eq_none {op : ExprOpType} (hdivides : op.divides = true) {a b : BitVec 32}
    (hdiv : divisible a b = false) : intOps.computeExpr op a b = none := by
  cases op with
  | division | mod => simp [intOps, hdiv]
  | _ => cases hdivides

/-- The operators of an `int` on the left are those of `intOps`. -/
theorem integer_compute {left right : ResultExpreData} {a : BitVec 32}
    (htype : left.type = .int ∨ left.type = .integer)
    (hdata : left.data = .iData a) (op : ExprOpType) :
    computeExpr address floatTest left right op =
      (intOps.computeExpr op a (right.data.toInt address)).map fun k => some
      (getDataInfo k) := by
  have hprocs : operatorOf address floatTest left.type op =
      integerDataTypeProcEntry address op := by
    rcases htype with htype | htype <;> rw [operatorOf, htype] <;> rfl
  have hleft : left.data.toInt address = a := by
    rw [hdata]
    rfl
  rw [computeExpr, hprocs]
  cases op with
  | division =>
    simp only [integerDataTypeProcEntry, int32DivisionOperator, int32Compute, hleft, intOps]
    split <;> rfl
  | mod =>
    simp only [integerDataTypeProcEntry, int32ModOperator, int32Compute, hleft, intOps]
    split <;> rfl
  | positive =>
    simp only [integerDataTypeProcEntry, int32PositiveOperator, int32Compute,
      hleft, mul_minus_one]
    rfl
  | negative =>
    simp only [integerDataTypeProcEntry, int32NegtiveOperator, int32Compute,
      hleft, mul_minus_one]
    rfl
  | less =>
    simp only [integerDataTypeProcEntry, int32LessEqualOperator, int32Test, hleft]; rfl
  | lessEqual =>
    simp only [integerDataTypeProcEntry, int32LessEqualOperator, int32Test, hleft]; rfl
  | equal => simp only [integerDataTypeProcEntry, int32EqualOperator, int32Test, hleft]; rfl
  | greaterEqual =>
    simp only [integerDataTypeProcEntry, int32GreaterEqualOperator, int32Test, hleft]; rfl
  | greater =>
    simp only [integerDataTypeProcEntry, int32GreaterOperator, int32Test, hleft]; rfl
  | notEqual =>
    simp only [integerDataTypeProcEntry, int32NotEqualOperator, int32Test, hleft]; rfl
  | plus => simp only [integerDataTypeProcEntry, int32PlusOperator, int32Compute, hleft]; rfl
  | minus =>
    simp only [integerDataTypeProcEntry, int32MinusOperator, int32Compute, hleft]; rfl
  | multiple =>
    simp only [integerDataTypeProcEntry, int32MultiOperator, int32Compute, hleft]; rfl

/-- Without a type there is no operator. -/
theorem unset_compute {left right : ResultExpreData} (h : left.IsUnset) (op : ExprOpType) :
    computeExpr address floatTest left right op = some none := by
  rw [computeExpr, operatorOf, h.1]
  rfl

/-! ## Arithmetic -/

section Arithmetic

variable (a b : BitVec 32)

theorem fits_int (a : BitVec 32) : -2 ^ 31 ≤ a.toInt ∧ a.toInt < 2 ^ 31 :=
  Exact.fits_toInt a

/-- The unary `+` gives the absolute value. -/
theorem positive_toInt_iff :
    (if (0 : BitVec 32).sle a then a else -a).toInt = a.toInt ↔
      0 ≤ a.toInt ∨ a.toInt = -2 ^ 31 := by
  have hbounds := fits_int a
  rw [BitVec.sle_eq_decide]
  split
  next h => exact ⟨fun _ => .inl (of_decide_eq_true h), fun _ => rfl⟩
  next h =>
    have hneg : ¬ 0 ≤ a.toInt := fun hle => h (decide_eq_true hle)
    rw [BitVec.toInt_neg, Int.bmod_eq_emod]
    split <;> omega

/-- The unary `-` gives the negative of the absolute value. -/
theorem negative_toInt_iff :
    (if (0 : BitVec 32).slt a then -a else a).toInt = -a.toInt ↔ 0 ≤ a.toInt := by
  have hbounds := fits_int a
  rw [BitVec.slt_eq_decide]
  split
  next h =>
    have hpos : 0 < a.toInt := of_decide_eq_true h
    rw [BitVec.toInt_neg, Int.bmod_eq_emod]
    split <;> omega
  next h =>
    have hle : ¬ 0 < a.toInt := fun hlt => h (decide_eq_true hlt)
    omega

variable {a b}

/-- Where the integers have a result, that of the operator is the same if it fits. -/
theorem arithmetic_iff {op : ExprOpType} {exact : Int}
    (h : mathResult op a.toInt b.toInt = some exact)
    {y : Option Int} (hy : y.getD 0 = b.toInt) :
    ∃ k, intOps.computeExpr op a b = some k ∧
      (k.toInt = exact ↔ StepFits op (some a.toInt) y) := by
  cases op with
  | positive =>
    cases h
    refine ⟨_, rfl, (positive_toInt_iff a).trans ?_⟩
    simp [StepFits]
  | negative =>
    cases h
    refine ⟨_, rfl, (negative_toInt_iff a).trans ?_⟩
    simp [StepFits]
  | plus =>
    cases h
    refine ⟨_, rfl, (Exact.toInt_add_iff (by omega) a b).trans ?_⟩
    simp [StepFits, hy]
  | minus =>
    cases h
    refine ⟨_, rfl, (Exact.toInt_sub_iff (by omega) a b).trans ?_⟩
    simp [StepFits, hy]
  | multiple =>
    cases h
    refine ⟨_, rfl, (Exact.toInt_mul_iff (by omega) a b).trans ?_⟩
    simp [StepFits, hy]
  | _ => cases h

theorem exactCompute_of_mathResult {op : ExprOpType} {a b exact : Int}
    (h : mathResult op a b = some exact) :
    exactCompute op a b = some exact := by
  cases op with
  | positive | negative | plus | minus | multiple => exact h
  | _ => cases h

/-- The divisions and the comparisons are those of the integers. -/
theorem other_compute {op : ExprOpType} (h : mathResult op a.toInt b.toInt = none)
    (hdiv : op.divides = true → divisible a b = true) :
    ∃ k, intOps.computeExpr op a b = some k ∧
      exactCompute op a.toInt b.toInt = some k.toInt := by
  cases op with
  | positive | negative | plus | minus | multiple => cases h
  | less | lessEqual =>
    refine ⟨_, rfl, ?_⟩
    rw [hatBool_toInt, BitVec.sle_eq_decide]
    rfl
  | greaterEqual =>
    refine ⟨_, rfl, ?_⟩
    rw [hatBool_toInt, BitVec.sle_eq_decide]
    rfl
  | greater =>
    refine ⟨_, rfl, ?_⟩
    rw [hatBool_toInt, BitVec.slt_eq_decide]
    rfl
  | equal =>
    refine ⟨_, rfl, ?_⟩
    rw [hatBool_toInt, beq_eq_decide, exactCompute]
    simp only [BitVec.toInt_inj]
  | notEqual =>
    refine ⟨_, rfl, ?_⟩
    rw [hatBool_toInt, exactCompute]
    simp only [ne_eq, BitVec.toInt_inj, bne, beq_eq_decide, decide_not]
  | division =>
    obtain ⟨hne, hmin⟩ := (divisible_iff a b).mp (hdiv rfl)
    refine ⟨a.sdiv b, if_pos (hdiv rfl), ?_⟩
    rw [exactCompute, if_neg hne, BitVec.toInt_sdiv_of_ne_or_ne]
    rw [← not_and_or]
    rintro ⟨rfl, rfl⟩
    exact hmin ⟨rfl, rfl⟩
  | mod =>
    obtain ⟨hne, -⟩ := (divisible_iff a b).mp (hdiv rfl)
    refine ⟨a.srem b, if_pos (hdiv rfl), ?_⟩
    rw [exactCompute, if_neg hne, BitVec.toInt_srem]

end Arithmetic

/-! ## Steps of the code -/

/-- The operations without a result to compare with only have to go on. -/
theorem stepFits_other {op : ExprOpType} {a b : BitVec 32}
    (h : mathResult op a.toInt b.toInt = none) {y : Option Int} (hy : y.getD 0 = b.toInt) :
    StepFits op (some a.toInt) y ↔ (op.divides = true → divisible a b = true) := by
  cases op with
  | positive | negative | plus | minus | multiple => cases h
  | division | mod =>
    rw [divisible_iff, ← hy]
    constructor
    · intro hfits _
      exact hfits _ rfl
    · rintro hdiv x hx
      obtain rfl := Option.some.inj hx
      exact hdiv rfl
  | _ => exact ⟨fun _ => nofun, fun _ => trivial⟩

/-- The result of the code is that of `intOps`. -/
theorem computeExpr_of_intOps {left right : ResultExpreData} {a k : BitVec 32}
    (htype : left.type = .int ∨ left.type = .integer)
    (hdata : left.data = .iData a) {op : ExprOpType}
    (hk : intOps.computeExpr op a (right.data.toInt address) = some k) :
    computeExpr address floatTest left right op = some (some (getDataInfo k)) := by
  rw [integer_compute htype hdata, hk]
  rfl

/-- A step that fits has the result of the integers. -/
theorem integer_step {left right : ResultExpreData} {a : BitVec 32}
    (htype : left.type = .int ∨ left.type = .integer)
    (hdata : left.data = .iData a) {y : Option Int}
    (hright : Holds right y) {op : ExprOpType} (hfits : StepFits op (some a.toInt) y) :
    ∃ k, computeExpr address floatTest left right op = some (some (getDataInfo k)) ∧
      exactCompute op a.toInt (y.getD 0) = some k.toInt := by
  have hy : y.getD 0 = (right.data.toInt address).toInt := hright.toInt_eq.symm
  cases hmath : mathResult op a.toInt (right.data.toInt address).toInt with
  | none =>
    have hdiv := (stepFits_other hmath hy).mp hfits
    obtain ⟨k, hk, hexact⟩ := other_compute hmath hdiv
    exact ⟨k, computeExpr_of_intOps htype hdata hk, by rw [hy, hexact]⟩
  | some exact =>
    obtain ⟨k, hk, hiff⟩ := arithmetic_iff hmath hy
    refine ⟨k, ?_, ?_⟩
    · exact computeExpr_of_intOps htype hdata hk
    · rw [hy, exactCompute_of_mathResult hmath, hiff.mpr hfits]

theorem integer_safeStep_iff {left right : ResultExpreData} {a : BitVec 32}
    (htype : left.type = .int ∨ left.type = .integer)
    (hdata : left.data = .iData a) {y : Option Int}
    (hright : Holds right y) (op : ExprOpType) :
    SafeStep address floatTest op left right ↔ StepFits op (some a.toInt) y := by
  have hy : y.getD 0 = (right.data.toInt address).toInt := hright.toInt_eq.symm
  have hleft : left.data.toInt address = a := by
    rw [hdata]
    rfl
  rw [SafeStep, hleft]
  cases hmath : mathResult op a.toInt (right.data.toInt address).toInt with
  | none =>
    constructor
    · intro h
      rw [stepFits_other hmath hy]
      intro hdivides
      by_contra hdiv
      refine h.1 ?_
      rw [integer_compute htype hdata,
        intOps_eq_none hdivides (Bool.eq_false_of_not_eq_true hdiv)]
      rfl
    · intro hfits
      obtain ⟨k, hk, -⟩ := integer_step htype hdata hright hfits
      exact ⟨by rw [hk]; nofun, nofun⟩
  | some exact =>
    obtain ⟨k, hk, hiff⟩ := arithmetic_iff hmath hy
    rw [← hiff, computeExpr_of_intOps htype hdata hk]
    constructor
    · intro h
      obtain ⟨value, hvalue, heq⟩ := h.2 exact rfl
      cases hvalue
      exact heq
    · intro h
      refine ⟨nofun, ?_⟩
      intro exact' hexact
      cases hexact
      exact ⟨_, rfl, h⟩

/-- 2147483647 + 1 is negative, and so is -(-3). -/
example : computeExpr (fun _ => 0) (fun _ _ _ => false) (getDataInfo 2147483647)
    (getDataInfo 1) .plus =
      some (some (getDataInfo (-2147483648))) ∧
    computeExpr (fun _ => 0) (fun _ _ _ => false) (getDataInfo (-3))
      (getDataInfo 0) .negative =
      some (some (getDataInfo (-3))) := by
  decide

theorem unset_safeStep_iff {left right : ResultExpreData} (h : left.IsUnset) (op : ExprOpType)
    (y : Option Int) : SafeStep address floatTest op left right ↔ StepFits op none y := by
  rw [SafeStep, unset_compute h]
  cases op with
  | positive | negative | plus | minus | multiple =>
    constructor
    · intro hsafe
      obtain ⟨value, hvalue, -⟩ := hsafe.2 _ rfl
      cases hvalue
    · rintro ⟨a, ha, -⟩
      cases ha
  | division | mod => exact ⟨fun _ => nofun, fun _ => ⟨nofun, nofun⟩⟩
  | _ => exact ⟨fun _ => trivial, fun _ => ⟨nofun, nofun⟩⟩

/-- A step of the code is right where the integers fit. -/
theorem safeStep_iff {op : ExprOpType} {left right : ResultExpreData} {x y : Option Int}
    (hleft : Holds left x) (hright : Holds right y) :
    SafeStep address floatTest op left right ↔ StepFits op x y := by
  cases hleft with
  | unset h => exact unset_safeStep_iff h op y
  | integer htype hdata => exact integer_safeStep_iff htype hdata hright op

theorem holds_computeExpr {op : ExprOpType} {left right : ResultExpreData} {x y : Option Int}
    (hleft : Holds left x) (hright : Holds right y) (hfits : StepFits op x y) :
    Option.Rel Holds ((valueOps address floatTest floatIsTrue).computeExpr op left right)
      (exactOps.computeExpr op x y) := by
  cases hleft with
  | unset h =>
    show Option.Rel Holds (computeExpr address floatTest left right op).join none
    rw [unset_compute h]
    exact .none
  | integer htype hdata =>
    obtain ⟨k, hk, hexact⟩ : ∃ k, computeExpr address floatTest left right op =
        some (some (getDataInfo k)) ∧ _ :=
      integer_step htype hdata hright hfits
    show Option.Rel Holds (computeExpr address floatTest left right op).join
      ((exactCompute op _ (y.getD 0)).map some)
    rw [hk, hexact]
    exact .some (holds_getDataInfo k)

theorem holds_getDataBool {value : ResultExpreData} {x : Option Int} (h : Holds value x) :
    (valueOps address floatTest floatIsTrue).getDataBool value = exactOps.getDataBool x := by
  cases h with
  | unset h =>
    show getDataBool address floatIsTrue (some value) = false
    rw [getDataBool, h.1]
  | @integer i htype hdata =>
    have htruth : getDataBool address floatIsTrue (some value) = (i != 0) := by
      rcases htype with htype | htype <;> rw [getDataBool, htype, hdata] <;> rfl
    refine htruth.trans ?_
    show (i != 0) = (i.toInt != 0)
    rw [Bool.eq_iff_iff, bne_iff_ne, bne_iff_ne, ne_eq, ne_eq, not_iff_not]
    exact (BitVec.toInt_inj (y := 0)).symm

/-- The evaluator of the code goes with that of the integers. -/
theorem simulates_exactOps :
    Simulates (valueOps address floatTest floatIsTrue) exactOps Holds
      (SafeStep address floatTest) StepFits where
  zero := .unset ⟨rfl, rfl⟩
  boolValue := holds_hatBool
  getDataBool := holds_getDataBool
  step_iff := safeStep_iff
  computeExpr := holds_computeExpr

theorem holds_constValue {c : ConstValue} (h : c.IsInteger) :
    Holds ((valueOps address floatTest floatIsTrue).constValue c)
      (exactOps.constValue c) := by
  obtain ⟨htype, i, hval⟩ := h
  have hexact : exactOps.constValue c = some i.toInt := by
    simp only [exactOps, hval]
  rw [hexact]
  exact .integer htype hval

/-! ## The expression -/

/-- An integer constant. -/
def intConst (i : BitVec 32) : QualNode := .constValue ⟨.int, .iData i⟩

/-- An operation on two operands. -/
def operation (op : ExprOpType) (left right : QualNode) : QualNode :=
  .exprEntry op 1 1 1 [] left right

end Toadb
