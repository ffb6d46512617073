/-
Toadb.Executor.ValueScanTheorems — INSERT is not all or nothing.

A VALUES list makes a row when every column that finds its name among the names known so far
finds a value at that position too (`RowForms`); a value of the wrong kind may be read through
as a pointer (`RowFaults`). What is left of a statement after its first bad list is stored,
and reported as a success: `all_or_nothing_iff`.
-/
import Mathlib.Data.List.Forall2
import Toadb.Executor.ValueScan
import Toadb.Storage.TuplesTheorems

namespace Toadb

open Bytes (memcpy memcpy_eq)

/-! ## Lists -/

section Lists

variable {α β : Type}

/-- A bad element comes after good ones only. -/
def FirstBad (Good Bad : α → Prop) : List α → Prop
  | [] => False
  | a :: as => Bad a ∨ Good a ∧ FirstBad Good Bad as

theorem not_firstBad {Good Bad : α → Prop} {as : List α} (h : ∀ a ∈ as, Good a)
    (hne : ∀ a, Good a → ¬ Bad a) : ¬ FirstBad Good Bad as := by
  induction as with
  | nil => exact id
  | cons a as ih =>
    rintro (hbad | ⟨-, hrest⟩)
    · exact hne a (h a List.mem_cons_self) hbad
    · exact ih (fun b hb => h b (List.mem_cons_of_mem a hb)) hrest

/-- A relation between two lists that only asks something of the first one. -/
theorem forall₂_iff_forall {R S : α → β → Prop} {T : α → Prop} {as : List α} {bs : List β}
    (h : List.Forall₂ R as bs) (hiff : ∀ a ∈ as, ∀ b, R a b → (S a b ↔ T a)) :
    List.Forall₂ S as bs ↔ ∀ a ∈ as, T a := by
  induction h with
  | nil => exact iff_of_true .nil nofun
  | @cons a b as bs hab hrest ih =>
    rw [List.forall₂_cons, List.forall_mem_cons, hiff a List.mem_cons_self b hab,
      ih fun a' ha' => hiff a' (List.mem_cons_of_mem a ha')]

end Lists

/-! ## Literals and columns -/

/-- INSERT takes a literal for a column without reading through a pointer that it does not
have. -/
def Literal.storable : Literal → ValueType → Bool
  | _, .unknown | _, .pointer => false
  | .string _, _ => true
  | _, .varchar | _, .string | _, .char => false
  | _, _ => true

/-- The bytes of a value in a column. -/
def storedBytes (type : ValueType) (value : Data) : List UInt8 :=
  match type, value with
  | .bool, .iData i => [boolByte (i != 0)]
  | .char, .pData s => s.val
  | _, .pData s => s.bytes
  | _, .iData i => wordBytes i
  | _, .fData bits => wordBytes bits
  | _, .cData c => [c]

section Literals

variable (address : CString → BitVec 64)

theorem transformConstValueRowData_string (s : CString) {type : ValueType}
    (ht : type = .varchar ∨ type = .string) (index : Nat) :
    transformConstValueRowData address (Literal.string s).constValue type index =
      some (.new index s.bytes) := by
  rcases ht with rfl | rfl <;>
    simp only [transformConstValueRowData, Literal.constValue, Data.toStr,
      Option.bind_eq_bind,
      Option.bind_some, memcpy_bytes, Option.pure_def]

/-- A `char` column takes the first character, if there is one. -/
theorem transformConstValueRowData_char (s : CString) (index : Nat) :
    transformConstValueRowData address (Literal.string s).constValue .char index =
      some (.new index (s.val.take 1)) := by
  by_cases hpos : 0 < s.strlen
  · have hone : (1 : Int) = ((1 : Nat) : Int) := rfl
    have hcopy : memcpy 1 [] s.bytes 1 = some (s.val.take 1) := by
      rw [hone, memcpy_eq (by rw [length_bytes]; omega) (by simp),
        List.nil_append, CString.bytes,
        List.take_append_of_le_length hpos]
    simp only [transformConstValueRowData, Literal.constValue, Data.toStr,
      Option.bind_eq_bind,
      Option.bind_some, if_pos hpos, hcopy, Option.pure_def]
  · have hnil : s.val = [] := List.eq_nil_of_length_eq_zero (Nat.eq_zero_of_not_pos hpos)
    simp only [transformConstValueRowData, Literal.constValue, Data.toStr,
      Option.bind_eq_bind,
      Option.bind_some, if_neg hpos, Option.pure_def, hnil, List.take_nil]

theorem transformConstValueRowData_isSome (lit : Literal) (type : ValueType) (index : Nat) :
    (transformConstValueRowData address lit.constValue type index).isSome =
      lit.storable type := by
  cases lit with
  | string s =>
    cases type with
    | varchar => rw [transformConstValueRowData_string address s (.inl rfl)]; rfl
    | string => rw [transformConstValueRowData_string address s (.inr rfl)]; rfl
    | char => rw [transformConstValueRowData_char]; rfl
    | _ => rfl
  | int i => cases type <;> rfl
  | float bits => cases type <;> rfl

/-- A value of the column's type is stored as this value. -/
theorem transformConstValueRowData_eq {lit : Literal} {type : ValueType} {value : Data}
    (h : lit.valueIn type = some value) (index : Nat) :
    transformConstValueRowData address lit.constValue type index =
      some (.new index (storedBytes type value)) := by
  cases lit with
  | string s =>
    cases type with
    | varchar =>
      cases h
      exact transformConstValueRowData_string address s (.inl rfl) index
    | string =>
      cases h
      exact transformConstValueRowData_string address s (.inr rfl) index
    | char =>
      rw [Literal.valueIn, Option.ite_none_right_eq_some] at h
      obtain ⟨hlen, hvalue⟩ := h
      cases hvalue
      rw [transformConstValueRowData_char, List.take_of_length_le (Nat.le_of_eq hlen)]
      rfl
    | _ => cases h
  | int i =>
    cases type with
    | bool =>
      cases h
      by_cases hi : i = 0
      · subst hi
        rfl
      · have hbit : (i != 0) = ((if i = 0 then (0 : BitVec 32) else 1) != 0) := by
          rw [if_neg hi, bne_iff_ne.mpr hi]
          rfl
        change some (RowColumnData.new index [boolByte (i != 0)]) = _
        rw [hbit]
        rfl
    | _ => cases h <;> rfl
  | float bits =>
    cases type with
    | _ => cases h <;> rfl

theorem storable_of_valueIn {lit : Literal} {type : ValueType} {value : Data}
    (h : lit.valueIn type = some value) : lit.storable type = true := by
  rw [← transformConstValueRowData_isSome (fun _ => 0) lit type 0,
    transformConstValueRowData_eq _ h]
  rfl

theorem boolByte_inj {a b : Bool} (h : boolByte a = boolByte b) : a = b := by
  revert a b
  decide

/-- Different values of a type are stored as different bytes. -/
theorem storedBytes_inj {lit lit' : Literal} {type : ValueType} {value value' : Data}
    (h : lit.valueIn type = some value) (h' : lit'.valueIn type = some value')
    (heq : storedBytes type value = storedBytes type value') : value = value' := by
  cases lit with
  | int i =>
    cases lit' with
    | int i' =>
      cases type with
      | bool =>
        cases h
        cases h'
        have hbit := boolByte_inj (List.cons.inj heq).1
        by_cases hi : i = 0 <;> by_cases hi' : i' = 0 <;> simp_all
      | int | integer | double | float =>
        cases h
        cases h'
        rw [wordBytes_inj.mp heq]
      | _ => cases h
    | string s => cases type <;> cases h <;> cases h'
    | float bits =>
      cases type with
      | double | float =>
        cases h
        cases h'
        rw [wordBytes_inj.mp heq]
      | _ => cases h'
  | float bits =>
    cases lit' with
    | int i =>
      cases type with
      | double | float =>
        cases h
        cases h'
        rw [wordBytes_inj.mp heq]
      | _ => cases h
    | string s => cases type <;> cases h <;> cases h'
    | float bits' =>
      cases type with
      | double | float =>
        cases h
        cases h'
        rw [wordBytes_inj.mp heq]
      | _ => cases h
  | string s =>
    cases lit' with
    | string s' =>
      cases type with
      | varchar | string =>
        cases h
        cases h'
        rw [Subtype.ext (List.append_cancel_right heq)]
      | char =>
        rw [Literal.valueIn, Option.ite_none_right_eq_some] at h h'
        obtain ⟨-, hs⟩ := h
        obtain ⟨-, hs'⟩ := h'
        cases hs
        cases hs'
        rw [Subtype.ext heq]
      | _ => cases h
    | int i => cases type <;> cases h' <;> cases h
    | float bits => cases type <;> cases h' <;> cases h

end Literals

/-! ## The names of a statement -/

/-- The table has a column of that name. -/
def TableList.HasColumn (tblInfo : TableList) (name : CString) : Prop :=
  ∃ col ∈ tblInfo.column, col.colName = name

instance (tblInfo : TableList) (name : CString) : Decidable (tblInfo.HasColumn name) :=
  inferInstanceAs (Decidable (∃ col ∈ tblInfo.column, col.colName = name))

/-- The columns that the values of a statement are for, in the order of the values. -/
def InsertStmt.columnNames (insertStmt : InsertStmt) (tblInfo : TableList) : List CString :=
  match insertStmt.attrNameList with
  | [] => tblInfo.column.map ColumnDefInfo.colName
  | attrNameList => attrNameList

/-- The names in front of the first one that the table does not have. -/
def InsertStmt.knownNames (insertStmt : InsertStmt) (tblInfo : TableList) : List CString :=
  (insertStmt.columnNames tblInfo).takeWhile fun name => decide (tblInfo.HasColumn name)

theorem getAttrIndex_isSome (tblInfo : TableList) (name : CString) :
    (getAttrIndex tblInfo name).isSome = decide (tblInfo.HasColumn name) := by
  rw [getAttrIndex, List.findIdx?_isSome, Bool.eq_iff_iff,
    List.any_eq_true, decide_eq_true_eq]
  constructor
  · rintro ⟨col, hmem, hcol⟩
    exact ⟨col, hmem, of_decide_eq_true hcol⟩
  · rintro ⟨col, hmem, hcol⟩
    exact ⟨col, hmem, decide_eq_true hcol⟩

theorem takeWhile_known {tblInfo : TableList} {names : List CString}
    (h : ∀ name ∈ names, tblInfo.HasColumn name) :
    names.takeWhile (fun name => decide (tblInfo.HasColumn name)) = names :=
  List.takeWhile_eq_self_iff.mpr fun name hmem => decide_eq_true (h name hmem)

/-- The target list has the known names. -/
theorem processAttrList_eq (insertStmt : InsertStmt) (tblInfo : TableList) :
    processAttrList insertStmt.attrNameList tblInfo =
      (insertStmt.knownNames tblInfo).map attrTarget := by
  unfold InsertStmt.knownNames InsertStmt.columnNames processAttrList
  cases insertStmt.attrNameList with
  | nil =>
    have hall : ∀ name ∈ tblInfo.column.map ColumnDefInfo.colName,
        tblInfo.HasColumn name := by
      intro name hmem
      obtain ⟨col, hcol, hname⟩ := List.mem_map.mp hmem
      exact ⟨col, hcol, hname⟩
    simp only [takeWhile_known hall, List.map_map]
    rfl
  | cons name names => simp only [getAttrIndex_isSome]

theorem knownNames_eq {insertStmt : InsertStmt} {tblInfo : TableList}
    (h : ∀ name ∈ insertStmt.columnNames tblInfo, tblInfo.HasColumn name) :
    insertStmt.knownNames tblInfo = insertStmt.columnNames tblInfo :=
  takeWhile_known h

/-! ## One row -/

section Row

variable (known : List CString) (values : List Literal) (col : ColumnDefInfo)

/-- The position of the value of a column. -/
def valuePos : Option Nat := known.findIdx? (· = col.colName)

/-- The column is NULL or gets a value. -/
def ColumnForms : Prop :=
  ∀ i, valuePos known col = some i → ∃ lit,
    values[i]? = some lit ∧ lit.storable col.type = true

/-- The value of the column is read through a pointer that it does not have. -/
def ColumnFaults : Prop :=
  ∃ i lit, valuePos known col = some i ∧ values[i]? = some lit ∧ lit.storable col.type = false

/-- A list of values makes a row of the table. -/
def RowForms (tblInfo : TableList) : Prop :=
  ∀ col ∈ tblInfo.column, ColumnForms known values col

/-- The value of a column faults before any column misses its value. -/
def RowFaults (tblInfo : TableList) : Prop :=
  FirstBad (ColumnForms known values) (ColumnFaults known values) tblInfo.column

theorem ColumnForms.not_faults {known : List CString} {values : List Literal}
    {col : ColumnDefInfo}
    (h : ColumnForms known values col) : ¬ ColumnFaults known values col := by
  rintro ⟨i, lit, hpos, hlit, hfault⟩
  obtain ⟨lit', hlit', hstore⟩ := h i hpos
  rw [hlit] at hlit'
  cases hlit'
  rw [hstore] at hfault
  cases hfault

/-- What the code makes of one column. -/
def ColumnFormed (address : CString → BitVec 64) (columnData : RowColumnData) : Prop :=
  match valuePos known col with
  | none => columnData.data = []
  | some i => ∃ lit index, values[i]? = some lit ∧
      transformConstValueRowData address lit.constValue col.type index = some columnData

end Row

theorem getColumnRefIndexByName_map (name : CString) (known : List CString) :
    getColumnRefIndexByName name (known.map attrTarget) =
      (known.findIdx? (· = name)).map (· + 1) := by
  rw [getColumnRefIndexByName, List.findIdx?_map]
  rfl

section Form

variable (address : CString → BitVec 64) (known : List CString) (values : List Literal)

/-- One column: it makes the row fail, or a value that the rest of the row follows. -/
theorem formColumns_cons (col : ColumnDefInfo) (column : List ColumnDefInfo) (index : Nat) :
    (ColumnForms known values col ∧ ∃ columnData,
      ColumnFormed known values col address columnData ∧
      formColumns address (known.map attrTarget) values (col :: column) index =
        (formColumns address (known.map attrTarget) values column (index + 1)).map
          (·.map (columnData :: ·))) ∨
    (ColumnFaults known values col ∧
      formColumns address (known.map attrTarget) values (col :: column) index = none) ∨
    ¬ ColumnForms known values col ∧ ¬ ColumnFaults known values col ∧
      formColumns address (known.map attrTarget) values (col :: column) index =
        some none := by
  rw [formColumns, getColumnRefIndexByName_map]
  cases hpos : known.findIdx? (· = col.colName) with
  | none =>
    refine .inl ⟨?_, .new index [], ?_, ?_⟩
    · intro i hi
      rw [valuePos, hpos] at hi
      cases hi
    · rw [ColumnFormed, valuePos, hpos]
      rfl
    · simp only [Option.bind_eq_bind, Option.pure_def, Option.map_eq_bind]
      rfl
  | some i =>
    have hcell : getDataByIndex (i + 1) values = values[i]? := rfl
    simp only [Option.map_some, hcell]
    cases hlit : values[i]? with
    | none =>
      refine .inr (.inr ⟨?_, ?_, rfl⟩)
      · intro h
        obtain ⟨lit, hlit', -⟩ := h i hpos
        rw [hlit] at hlit'
        cases hlit'
      · rintro ⟨i', lit, hpos', hlit', -⟩
        rw [valuePos, hpos] at hpos'
        cases hpos'
        rw [hlit] at hlit'
        cases hlit'
    | some lit =>
      have hsome := transformConstValueRowData_isSome address lit col.type index
      cases hdata : transformConstValueRowData address lit.constValue col.type index with
      | none =>
        rw [hdata] at hsome
        refine .inr (.inl ⟨⟨i, lit, hpos, hlit, hsome.symm⟩, ?_⟩)
        simp only [hdata, Option.bind_eq_bind, Option.bind_none]
      | some columnData =>
        rw [hdata] at hsome
        refine .inl ⟨?_, columnData, ?_, ?_⟩
        · intro i' hpos'
          rw [valuePos, hpos] at hpos'
          cases hpos'
          exact ⟨lit, hlit, hsome.symm⟩
        · rw [ColumnFormed, valuePos, hpos]
          exact ⟨lit, index, hlit, hdata⟩
        · simp only [hdata, Option.bind_eq_bind, Option.bind_some,
            Option.pure_def, Option.map_eq_bind]
          rfl

/-- The rows that are made, the ones that fault, and the ones that are NULL. -/
theorem formColumns_cases (column : List ColumnDefInfo) (index : Nat) :
    ((∀ col ∈ column, ColumnForms known values col) ∧ ∃ row,
      List.Forall₂ (fun col columnData =>
        ColumnFormed known values col address columnData) column row ∧
        formColumns address (known.map attrTarget) values column index = some (some row)) ∨
    (FirstBad (ColumnForms known values) (ColumnFaults known values) column ∧
      formColumns address (known.map attrTarget) values column index = none) ∨
    (¬ (∀ col ∈ column, ColumnForms known values col) ∧
      ¬ FirstBad (ColumnForms known values) (ColumnFaults known values) column ∧
      formColumns address (known.map attrTarget) values column index = some none) := by
  induction column generalizing index with
  | nil => exact .inl ⟨nofun, [], .nil, rfl⟩
  | cons col column ih =>
    rcases formColumns_cons address known values col column index with
      ⟨hforms, columnData, hdata, heq⟩ | ⟨hfaults, heq⟩ | ⟨hforms, hfaults, heq⟩
    · rcases ih (index + 1) with ⟨hall, row, hrow, hrest⟩ | ⟨hbad,
        hrest⟩ | ⟨hall, hbad, hrest⟩
      · refine .inl ⟨List.forall_mem_cons.mpr ⟨hforms, hall⟩, columnData :: row,
          .cons hdata hrow, ?_⟩
        rw [heq, hrest]
        rfl
      · refine .inr (.inl ⟨.inr ⟨hforms, hbad⟩, ?_⟩)
        rw [heq, hrest]
        rfl
      · refine .inr (.inr ⟨fun h => hall (List.forall_mem_cons.mp h).2, ?_, ?_⟩)
        · rintro (hfaults | ⟨-, hrest'⟩)
          · exact hforms.not_faults hfaults
          · exact hbad hrest'
        · rw [heq, hrest]
          rfl
    · exact .inr (.inl ⟨.inl hfaults, heq⟩)
    · refine .inr (.inr ⟨fun h => hforms (List.forall_mem_cons.mp h).1, ?_, heq⟩)
      rintro (hbad | ⟨hgood, -⟩)
      · exact hfaults hbad
      · exact hforms hgood

end Form

/-! ## All rows -/

section Values

variable (address : CString → BitVec 64) (tblInfo : TableList) (known : List CString)

/-- The code's row of a list of values. -/
def RowFormed (values : List Literal) (row : List RowColumnData) : Prop :=
  List.Forall₂ (fun col columnData => ColumnFormed known values col address columnData)
    tblInfo.column row

/-- The lists of values that are reached have one that faults. -/
def ValuesFault (valuesList : List (List Literal)) : Prop :=
  FirstBad (fun values => RowForms known values tblInfo)
    (fun values => RowFaults known values tblInfo)
    valuesList

theorem transformValues_cons (values : List Literal) (valuesList : List (List Literal)) :
    (RowForms known values tblInfo ∧ ∃ row, RowFormed address tblInfo known values row ∧
      transformValues address tblInfo (known.map attrTarget) (values :: valuesList) =
        (transformValues address tblInfo (known.map attrTarget) valuesList).map (row :: ·)) ∨
    (RowFaults known values tblInfo ∧
      transformValues address tblInfo (known.map attrTarget) (values :: valuesList) = none) ∨
    ¬ RowForms known values tblInfo ∧ ¬ RowFaults known values tblInfo ∧
      transformValues address tblInfo (known.map attrTarget) (values :: valuesList) =
        some [] := by
  rw [transformValues, valuesFormRowData]
  rcases formColumns_cases address known values tblInfo.column 0 with
    ⟨hall, row, hrow, heq⟩ | ⟨hbad, heq⟩ | ⟨hall, hbad, heq⟩
  · refine .inl ⟨hall, row, hrow, ?_⟩
    simp only [heq, Option.bind_eq_bind, Option.bind_some,
      Option.pure_def, Option.map_eq_bind]
    rfl
  · refine .inr (.inl ⟨hbad, ?_⟩)
    rw [heq]
    rfl
  · refine .inr (.inr ⟨hall, hbad, ?_⟩)
    rw [heq]
    rfl

theorem transformValues_eq_none (valuesList : List (List Literal)) :
    transformValues address tblInfo (known.map attrTarget) valuesList = none ↔
      ValuesFault tblInfo known valuesList := by
  induction valuesList with
  | nil => exact iff_of_false nofun id
  | cons values valuesList ih =>
    rw [ValuesFault, FirstBad]
    rcases transformValues_cons address tblInfo known values valuesList with
      ⟨hforms, row, -, heq⟩ | ⟨hfaults, heq⟩ | ⟨hforms, hfaults, heq⟩
    · have hgood : ¬ RowFaults known values tblInfo :=
        not_firstBad hforms fun col => ColumnForms.not_faults
      rw [heq, Option.map_eq_none_iff, ih, or_iff_right hgood, and_iff_right hforms]
      rfl
    · exact iff_of_true heq (.inl hfaults)
    · rw [heq]
      refine iff_of_false nofun ?_
      rintro (hbad | ⟨hgood, -⟩)
      · exact hfaults hbad
      · exact hforms hgood

/-- The first list of values decides whether there is a row at all. -/
theorem transformValues_ne_nil {values : List Literal} {valuesList : List (List Literal)}
    {rows : List (List RowColumnData)}
    (h : transformValues address tblInfo (known.map attrTarget) (values :: valuesList) =
      some rows) :
    rows ≠ [] ↔ RowForms known values tblInfo := by
  rcases transformValues_cons address tblInfo known values valuesList with
    ⟨hforms, row, -, heq⟩ | ⟨hfaults, heq⟩ | ⟨hforms, hfaults, heq⟩
  · rw [heq] at h
    obtain ⟨rest, -, rfl⟩ := Option.map_eq_some_iff.mp h
    exact iff_of_true nofun hforms
  · rw [heq] at h
    cases h
  · rw [heq] at h
    cases h
    exact iff_of_false (fun h => h rfl) hforms

theorem transformValues_all {valuesList : List (List Literal)}
    (h : ∀ values ∈ valuesList, RowForms known values tblInfo) :
    ∃ rows, transformValues address tblInfo (known.map attrTarget) valuesList = some rows ∧
      List.Forall₂ (RowFormed address tblInfo known) valuesList rows := by
  induction valuesList with
  | nil => exact ⟨[], rfl, .nil⟩
  | cons values valuesList ih =>
    obtain ⟨hfirst, hrest⟩ := List.forall_mem_cons.mp h
    obtain ⟨rows, hrows, hformed⟩ := ih hrest
    rcases transformValues_cons address tblInfo known values valuesList with
      ⟨hforms, row, hrow, heq⟩ | ⟨hfaults, heq⟩ | ⟨hforms, hfaults, heq⟩
    · refine ⟨row :: rows, ?_, .cons hrow hformed⟩
      rw [heq, hrows]
      rfl
    · exact absurd hfaults (not_firstBad hfirst fun col => ColumnForms.not_faults)
    · exact absurd hfirst hforms

end Values

/-! ## Storing -/

section Insert

variable {opRet : Nat → Int}

theorem insertLoop_all {rows : List (List RowColumnData)} {sucRows : Nat}
    (h : ∀ k < rows.length, 0 ≤ opRet (sucRows + k)) :
    insertLoop opRet rows sucRows = ⟨0, rows⟩ := by
  induction rows generalizing sucRows with
  | nil => rfl
  | cons row rows ih =>
    have hfirst : ¬ opRet sucRows < 0 := Int.not_lt.mpr (h 0 (Nat.succ_pos rows.length))
    have hrest : ∀ k < rows.length, 0 ≤ opRet (sucRows + 1 + k) := by
      intro k hk
      rw [Nat.add_assoc, Nat.add_comm 1 k]
      exact h (k + 1) (Nat.succ_lt_succ hk)
    rw [insertLoop, if_neg hfirst, ih hrest]

/-- After a row that is not stored, fewer rows are stored than there are. -/
theorem insertLoop_length_lt {rows : List (List RowColumnData)} {sucRows k : Nat}
    (hk : k < rows.length) (h : opRet (sucRows + k) < 0) :
    (insertLoop opRet rows sucRows).rows.length < rows.length := by
  induction rows generalizing sucRows k with
  | nil => cases hk
  | cons row rows ih =>
    rw [insertLoop]
    split
    · exact Nat.succ_pos rows.length
    next hfirst =>
      cases k with
      | zero => exact absurd h hfirst
      | succ k =>
        rw [Nat.add_comm k 1, ← Nat.add_assoc] at h
        exact Nat.succ_lt_succ (ih (Nat.lt_of_succ_lt_succ hk) h)

/-- A statement reports a failure only when its first row is not stored. -/
theorem execTableModifyTbl_neg {rows : List (List RowColumnData)} (hneg : opRet 0 < 0)
    (hrows : rows ≠ []) : execTableModifyTbl opRet rows = ⟨opRet 0, []⟩ := by
  cases rows with
  | nil => exact absurd rfl hrows
  | cons row rows =>
    rw [execTableModifyTbl, insertLoop, if_pos hneg]
    rfl

theorem execTableModifyTbl_nonneg (hpos : 0 ≤ opRet 0) (rows : List (List RowColumnData)) :
    0 ≤ (execTableModifyTbl opRet rows).retCode := by
  cases rows with
  | nil => exact Int.le_refl 0
  | cons row rows =>
    rw [execTableModifyTbl, insertLoop, if_neg (Int.not_lt.mpr hpos)]
    exact Int.natCast_nonneg _

end Insert

/-! ## All or nothing -/

section Statement

variable (tblInfo : TableList)

/-- A row of VALUES can be formed: there are as many values as names, the table has each name,
and the value is one of the column's type. -/
structure RowFormable (names : List CString) (values : List Literal) : Prop where
  length_eq : values.length = names.length
  known : ∀ name ∈ names, tblInfo.HasColumn name
  accepted : ∀ col ∈ tblInfo.column, ∀ (i : Nat) (lit : Literal),
    names[i]? = some col.colName →
    values[i]? = some lit → ∃ value, lit.valueIn col.type = some value

/-- The column holds the value at the position of its name, or is NULL. -/
def ColumnHolds (names : List CString) (values : List Literal) (col : ColumnDefInfo)
    (columnData : RowColumnData) : Prop :=
  (∀ (i : Nat) (lit : Literal), names[i]? = some col.colName → values[i]? = some lit →
    ∃ value, lit.valueIn col.type = some value ∧
      columnData.data = storedBytes col.type value) ∧
  (col.colName ∉ names → columnData.data = [])

/-- Where a name is given twice, both values are the same. -/
def ColumnAgrees (names : List CString) (values : List Literal)
    (col : ColumnDefInfo) : Prop :=
  ∀ (i j : Nat) (lit lit' : Literal), names[i]? = some col.colName →
    names[j]? = some col.colName → values[i]? = some lit → values[j]? = some lit' →
      lit.valueIn col.type = lit'.valueIn col.type

variable (insertStmt : InsertStmt)

def RowsFormable : Prop :=
  ∀ values ∈ insertStmt.valuesList,
    RowFormable tblInfo (insertStmt.columnNames tblInfo) values

/-- A stored row for each row of VALUES, with its values in the columns of its names. -/
def RowsHold (rows : List (List RowColumnData)) : Prop :=
  List.Forall₂ (fun values row =>
    List.Forall₂ (ColumnHolds (insertStmt.columnNames tblInfo) values)
    tblInfo.column row) insertStmt.valuesList rows

def RepeatsAgree : Prop :=
  ∀ values ∈ insertStmt.valuesList, ∀ col ∈ tblInfo.column,
    ColumnAgrees (insertStmt.columnNames tblInfo) values col

/-- A statement with a row that cannot be formed fails and stores nothing, and one that
succeeds has stored all its rows. -/
def AllOrNothing (run : Option InsertResult) : Prop :=
  (¬ RowsFormable tblInfo insertStmt →
    ∃ result, run = some result ∧ result.retCode < 0 ∧ result.rows = []) ∧
  ∀ result, run = some result → 0 ≤ result.retCode → RowsHold tblInfo insertStmt result.rows

end Statement

/-- The names and the values side by side. -/
theorem rowFormable_iff_zip {tblInfo : TableList} {names : List CString}
    {values : List Literal} :
    RowFormable tblInfo names values ↔
      values.length = names.length ∧ (∀ name ∈ names, tblInfo.HasColumn name) ∧
        ∀ col ∈ tblInfo.column, ∀ nameValue ∈ names.zip values, nameValue.1 = col.colName →
          (nameValue.2.valueIn col.type).isSome := by
  constructor
  · intro h
    refine ⟨h.length_eq, h.known, fun col hcol nameValue hmem hname => ?_⟩
    obtain ⟨i, hi⟩ := List.mem_iff_getElem?.mp hmem
    obtain ⟨hname', hlit⟩ := List.getElem?_zip_eq_some.mp hi
    rw [hname] at hname'
    exact Option.isSome_iff_exists.mpr (h.accepted col hcol i _ hname' hlit)
  · rintro ⟨hlen, hknown, haccepted⟩
    refine ⟨hlen, hknown, fun col hcol i lit hname hlit => ?_⟩
    have hpair : (names.zip values)[i]? = some (col.colName, lit) :=
      List.getElem?_zip_eq_some.mpr ⟨hname, hlit⟩
    exact Option.isSome_iff_exists.mp (haccepted col hcol _ (List.mem_of_getElem? hpair) rfl)

instance (tblInfo : TableList) (names : List CString) (values : List Literal) :
    Decidable (RowFormable tblInfo names values) :=
  decidable_of_iff _ rowFormable_iff_zip.symm

instance (tblInfo : TableList) (insertStmt : InsertStmt) :
    Decidable (RowsFormable tblInfo insertStmt) :=
  inferInstanceAs (Decidable (∀ _ ∈ _, _))

/-- No name is given twice. -/
theorem repeatsAgree_of_nodup {tblInfo : TableList} {insertStmt : InsertStmt}
    (h : (insertStmt.columnNames tblInfo).Nodup) : RepeatsAgree tblInfo insertStmt := by
  intro values _ col _ i j lit lit' hi hj hlit hlit'
  obtain ⟨hlt, -⟩ := List.getElem?_eq_some_iff.mp hi
  obtain rfl : i = j := List.getElem?_inj hlt h |>.mp (hi.trans hj.symm)
  rw [Option.some.inj (hlit.symm.trans hlit')]

theorem RowFormable.forms {tblInfo : TableList} {names : List CString} {values : List Literal}
    (h : RowFormable tblInfo names values) : RowForms names values tblInfo := by
  intro col hcol i hpos
  obtain ⟨hlt, hname, -⟩ := List.findIdx?_eq_some_iff_getElem.mp hpos
  have hvalue : i < values.length := by rwa [h.length_eq]
  have hi : names[i]? = some col.colName := by
    rw [List.getElem?_eq_getElem hlt, of_decide_eq_true hname]
  have hlit : values[i]? = some values[i] := List.getElem?_eq_getElem hvalue
  obtain ⟨value, hin⟩ := h.accepted col hcol i _ hi hlit
  exact ⟨_, hlit, storable_of_valueIn hin⟩

/-- A formed column holds its value when the name is not given again with another one. -/
theorem columnHolds_iff {address : CString → BitVec 64} {tblInfo : TableList}
    {names : List CString}
    {values : List Literal} {col : ColumnDefInfo} {columnData : RowColumnData}
    (h : RowFormable tblInfo names values) (hcol : col ∈ tblInfo.column)
    (hformed : ColumnFormed names values col address columnData) :
    ColumnHolds names values col columnData ↔ ColumnAgrees names values col := by
  unfold ColumnFormed at hformed
  split at hformed
  next hpos =>
    have hnot : col.colName ∉ names := by
      intro hmem
      have hfalse := List.findIdx?_eq_none_iff.mp hpos _ hmem
      exact of_decide_eq_false hfalse rfl
    have hno : ∀ i, names[i]? ≠ some col.colName := fun i hi => hnot (List.mem_of_getElem? hi)
    exact iff_of_true ⟨fun i lit hi => absurd hi (hno i), fun _ => hformed⟩
      fun i j lit lit' hi => absurd hi (hno i)
  next first hpos =>
    obtain ⟨lit₀, index, hlit₀, hdata⟩ := hformed
    obtain ⟨hlt, hname, -⟩ := List.findIdx?_eq_some_iff_getElem.mp hpos
    have hfirst : names[first]? = some col.colName := by
      rw [List.getElem?_eq_getElem hlt, of_decide_eq_true hname]
    obtain ⟨value₀, hvalue₀⟩ := h.accepted col hcol first lit₀ hfirst hlit₀
    rw [transformConstValueRowData_eq address hvalue₀] at hdata
    cases hdata
    constructor
    · rintro ⟨hholds, -⟩
      have hsame : ∀ (i : Nat) (lit : Literal), names[i]? = some col.colName →
          values[i]? = some lit → lit.valueIn col.type = some value₀ := by
        intro i lit hi hlit
        obtain ⟨value, hvalue, hbytes⟩ := hholds i lit hi hlit
        rw [hvalue, storedBytes_inj hvalue hvalue₀ hbytes.symm]
      intro i j lit lit' hi hj hlit hlit'
      rw [hsame i lit hi hlit, hsame j lit' hj hlit']
    · intro hagrees
      constructor
      · intro i lit hi hlit
        refine ⟨value₀, ?_, rfl⟩
        rw [hagrees i first lit lit₀ hi hfirst hlit hlit₀, hvalue₀]
      · intro hnot
        exact absurd (List.mem_of_getElem? hfirst) hnot

section Run

variable {getTableInfo : CString → Option TableList} {tblInfo : TableList}
  {insertStmt : InsertStmt}

/-- The plan makes its rows with the names that the table has, and stores them in that
table. -/
theorem runInsert_eq (htbl : getTableInfo insertStmt.tableName = some tblInfo)
    (address : CString → BitVec 64) (opRet : Nat → Int) :
    runInsert getTableInfo address opRet insertStmt =
      (transformValues address tblInfo ((insertStmt.knownNames tblInfo).map attrTarget)
        insertStmt.valuesList).map (execTableModifyTbl opRet) := by
  rw [← processAttrList_eq]
  simp only [runInsert, transformInsertStmt, getRangTblNode, htbl, Option.bind_eq_bind,
    Option.bind_some, Option.pure_def, execInsert, Option.map_eq_bind]
  rfl

/-- All rows can be formed: the rows are those of the code, and they hold their values when
repeated names agree. -/
theorem RowsFormable.rows (h : RowsFormable tblInfo insertStmt)
    (address : CString → BitVec 64) :
    ∃ rows, transformValues address tblInfo ((insertStmt.knownNames tblInfo).map attrTarget)
        insertStmt.valuesList = some rows ∧ rows.length = insertStmt.valuesList.length ∧
      (RowsHold tblInfo insertStmt rows ↔ RepeatsAgree tblInfo insertStmt) := by
  have hknown : insertStmt.knownNames tblInfo = insertStmt.columnNames tblInfo :=
    knownNames_eq (h _ (List.head_mem insertStmt.valuesList_ne_nil)).known
  rw [hknown]
  obtain ⟨rows, hrows, hformed⟩ := transformValues_all address tblInfo
    (insertStmt.columnNames tblInfo) fun values hmem => (h values hmem).forms
  refine ⟨rows, hrows, hformed.length_eq.symm, ?_⟩
  apply forall₂_iff_forall hformed
  intro values hmem row hrow
  apply forall₂_iff_forall hrow
  intro col hcol columnData hdata
  exact columnHolds_iff (h values hmem) hcol hdata

/-- The storage refuses the first row: nothing is stored, as long as there is a first row. -/
theorem allOrNothing_iff_of_neg {address : CString → BitVec 64} {opRet : Nat → Int}
    {run : Option InsertResult}
    (hrun : run =
      (transformValues address tblInfo ((insertStmt.knownNames tblInfo).map attrTarget)
      insertStmt.valuesList).map (execTableModifyTbl opRet)) (hneg : opRet 0 < 0) :
    AllOrNothing tblInfo insertStmt run ↔
      RowForms (insertStmt.knownNames tblInfo)
          (insertStmt.valuesList.head insertStmt.valuesList_ne_nil) tblInfo ∧
        ¬ ValuesFault tblInfo (insertStmt.knownNames tblInfo) insertStmt.valuesList := by
  have hcons := List.cons_head_tail insertStmt.valuesList_ne_nil
  rw [← transformValues_eq_none address]
  cases hrows : transformValues address tblInfo
    ((insertStmt.knownNames tblInfo).map attrTarget)
      insertStmt.valuesList with
  | none =>
    -- the statement does not end
    refine iff_of_false ?_ fun h => h.2 rfl
    rintro ⟨hfail, -⟩
    by_cases hform : RowsFormable tblInfo insertStmt
    · obtain ⟨rows, hsome, -⟩ := hform.rows address
      rw [hrows] at hsome
      cases hsome
    · obtain ⟨result, hresult, -⟩ := hfail hform
      rw [hrun, hrows] at hresult
      cases hresult
  | some rows =>
    rw [hrows, Option.map_some] at hrun
    have hfirst : rows ≠ [] ↔ RowForms (insertStmt.knownNames tblInfo)
        (insertStmt.valuesList.head insertStmt.valuesList_ne_nil) tblInfo := by
      rw [← hcons] at hrows
      exact transformValues_ne_nil address tblInfo _ hrows
    rw [← hfirst, and_iff_left nofun, hrun]
    constructor
    · rintro ⟨hfail, -⟩
      by_cases hform : RowsFormable tblInfo insertStmt
      · obtain ⟨rows', hsome, hlen, -⟩ := hform.rows address
        rw [hrows] at hsome
        cases hsome
        intro hnil
        rw [hnil] at hlen
        exact insertStmt.valuesList_ne_nil (List.eq_nil_of_length_eq_zero hlen.symm)
      · obtain ⟨result, hresult, hcode, -⟩ := hfail hform
        rintro rfl
        cases hresult
        exact absurd hcode (Int.lt_irrefl 0)
    · intro hne
      rw [execTableModifyTbl_neg hneg hne]
      constructor
      · intro _
        exact ⟨_, rfl, hneg, rfl⟩
      · rintro result hresult hcode
        cases hresult
        exact absurd hcode (Int.not_le.mpr hneg)

/-- The storage takes the first row: the statement succeeds, whatever follows. -/
theorem allOrNothing_iff_of_nonneg {address : CString → BitVec 64} {opRet : Nat → Int}
    {run : Option InsertResult}
    (hrun : run =
      (transformValues address tblInfo ((insertStmt.knownNames tblInfo).map attrTarget)
      insertStmt.valuesList).map (execTableModifyTbl opRet)) (hpos : 0 ≤ opRet 0) :
    AllOrNothing tblInfo insertStmt run ↔
      RowsFormable tblInfo insertStmt ∧ RepeatsAgree tblInfo insertStmt ∧
        ∀ k < insertStmt.valuesList.length, 0 ≤ opRet k := by
  by_cases hform : RowsFormable tblInfo insertStmt
  · obtain ⟨rows, hrows, hlen, hagree⟩ := hform.rows address
    rw [hrows, Option.map_some] at hrun
    rw [and_iff_right hform, ← hagree, ← hlen, AllOrNothing, hrun]
    constructor
    · rintro ⟨-, hsuccess⟩
      have hhold := hsuccess _ rfl (execTableModifyTbl_nonneg hpos rows)
      have hstored : (insertLoop opRet rows 0).rows.length = rows.length := by
        rw [hlen]
        exact hhold.length_eq.symm
      have hall : ∀ k < rows.length, 0 ≤ opRet k := by
        intro k hk
        by_contra hk'
        rw [← Nat.zero_add k] at hk'
        exact Nat.ne_of_lt (insertLoop_length_lt hk (Int.not_le.mp hk')) hstored
      have hloop : insertLoop opRet rows 0 = ⟨0, rows⟩ :=
        insertLoop_all fun k hk => by
          rw [Nat.zero_add]
          exact hall k hk
      rw [execTableModifyTbl, hloop] at hhold
      exact ⟨hhold, hall⟩
    · rintro ⟨hhold, hall⟩
      have hloop : insertLoop opRet rows 0 = ⟨0, rows⟩ :=
        insertLoop_all fun k hk => by
          rw [Nat.zero_add]
          exact hall k hk
      refine ⟨fun hno => absurd hform hno, ?_⟩
      rintro result hresult -
      cases hresult
      rw [execTableModifyTbl, hloop]
      exact hhold
  · refine iff_of_false ?_ fun h => hform h.1
    rintro ⟨hfail, -⟩
    obtain ⟨result, hresult, hcode, -⟩ := hfail hform
    rw [hrun] at hresult
    obtain ⟨rows, -, rfl⟩ := Option.map_eq_some_iff.mp hresult
    exact Int.not_le.mpr hcode (execTableModifyTbl_nonneg hpos rows)

/-- Which statements are all or nothing: those whose first row the storage refuses, when no
list of values faults before; and those whose rows can all be formed and are all stored, when
a name that is given twice has the same value both times. -/
theorem all_or_nothing_iff (htbl : getTableInfo insertStmt.tableName = some tblInfo)
    (address : CString → BitVec 64) (opRet : Nat → Int) :
    AllOrNothing tblInfo insertStmt (runInsert getTableInfo address opRet insertStmt) ↔
      (opRet 0 < 0 ∧
        RowForms (insertStmt.knownNames tblInfo)
          (insertStmt.valuesList.head insertStmt.valuesList_ne_nil) tblInfo ∧
        ¬ ValuesFault tblInfo (insertStmt.knownNames tblInfo) insertStmt.valuesList) ∨
      (RowsFormable tblInfo insertStmt ∧ RepeatsAgree tblInfo insertStmt ∧
        ∀ k < insertStmt.valuesList.length, 0 ≤ opRet k) := by
  have hpos : 0 < insertStmt.valuesList.length :=
    List.length_pos_of_ne_nil insertStmt.valuesList_ne_nil
  have hrun := runInsert_eq htbl address opRet
  by_cases hneg : opRet 0 < 0
  · have hno : ¬ (RowsFormable tblInfo insertStmt ∧ RepeatsAgree tblInfo insertStmt ∧
        ∀ k < insertStmt.valuesList.length, 0 ≤ opRet k) := by
      rintro ⟨-, -, hall⟩
      exact Int.not_le.mpr hneg (hall 0 hpos)
    rw [or_iff_left hno, and_iff_right hneg]
    exact allOrNothing_iff_of_neg hrun hneg
  · have hno : ¬ (opRet 0 < 0 ∧ RowForms (insertStmt.knownNames tblInfo)
          (insertStmt.valuesList.head insertStmt.valuesList_ne_nil) tblInfo ∧
        ¬ ValuesFault tblInfo (insertStmt.knownNames tblInfo) insertStmt.valuesList) := by
      rintro ⟨h, -⟩
      exact hneg h
    rw [or_iff_right hno]
    exact allOrNothing_iff_of_nonneg hrun (Int.not_lt.mp hneg)

end Run

/-- A table with the columns `a` and `b`. -/
def pairTable : TableList :=
  ⟨[⟨cString [97], .int, 0⟩, ⟨cString [98], .varchar, 1⟩]⟩

/-- `INSERT INTO t (b, a) VALUES ('x', 1), ('yy', 2), ('', 3)`. -/
def insertSwapped : InsertStmt where
  tableName := cString [116]
  attrNameList := [cString [98], cString [97]]
  valuesList := [[.string (cString [120]), .int 1], [.string (cString [121, 121]), .int 2],
    [.string (cString []), .int 3]]
  valuesList_ne_nil := List.cons_ne_nil _ _

theorem insertSwapped_allOrNothing :
    AllOrNothing pairTable insertSwapped
      (runInsert (fun _ => some pairTable) (fun _ => 0) (fun _ => 0) insertSwapped) := by
  have htbl : (fun _ => some pairTable) insertSwapped.tableName = some pairTable := rfl
  have hformable : RowsFormable pairTable insertSwapped := by decide
  have hagree : RepeatsAgree pairTable insertSwapped := repeatsAgree_of_nodup (by decide)
  exact (all_or_nothing_iff htbl (fun _ => 0) (fun _ => 0)).mpr
    (.inr ⟨hformable, hagree, fun _ _ => le_rfl⟩)

/-- `INSERT INTO t VALUES (1, 'x'), (2)`. -/
def insertShort : InsertStmt where
  tableName := cString [116]
  attrNameList := []
  valuesList := [[.int 1, .string (cString [120])], [.int 2]]
  valuesList_ne_nil := nofun

/-- The first row is stored, and the statement reports one row. -/
theorem insertShort_half_done :
    ¬ ∀ (getTableInfo : CString → Option TableList) (tblInfo : TableList)
      (insertStmt : InsertStmt) (address : CString → BitVec 64) (opRet : Nat → Int),
      getTableInfo insertStmt.tableName = some tblInfo →
        AllOrNothing tblInfo insertStmt
          (runInsert getTableInfo address opRet insertStmt) := by
  intro h
  obtain ⟨hfail, -⟩ :=
    h (fun _ => some pairTable) pairTable insertShort (fun _ => 0) (fun _ => 0) rfl
  have hno : ¬ RowsFormable pairTable insertShort := by
    intro hform
    have hlen := (hform [.int 2] (by decide)).length_eq
    exact absurd hlen (by decide)
  obtain ⟨result, hresult, hcode, -⟩ := hfail hno
  have hrun : (runInsert (fun _ => some pairTable) (fun _ => 0) (fun _ => 0) insertShort).map
      InsertResult.retCode = some 1 := by decide
  rw [hresult] at hrun
  rw [Option.some.inj hrun] at hcode
  exact absurd hcode (by decide)

end Toadb
