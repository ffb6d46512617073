/-
Toadb.Lib.VersionedTable — tables of versions.

A cell keeps every version it ever had, the newest first: who created it, who deleted it, and
the value. A reader is told by `seen` whose work it sees, and reads in each cell the newest
version it is shown. Writers insert rows at new positions, put a version in front of a cell,
or delete the newest one; they touch a cell only while its newest version is not deleted
(`Table.LiveAt`).

  * `Run.select_unseen`: the work of writers that a reader does not see leaves what it
    selects.
  * `Run.select_inserts`: inserted rows are selected once each, in some order.
  * `Run.writes`, `Table.select_writeCells`: of a writer that a reader sees it selects what
    was written last.
  * `Run.deletes`, `Table.select_deleteCells`: rows with a cell that was deleted are not
    selected, by a reader that sees all the work on it.
-/
import Mathlib.Data.List.Perm.Basic
import Mathlib.Data.List.Forall2

namespace VersionedTable

universe u v w
variable {P : Type u} {X : Type v} {V : Type w}

/-! ## Tables -/

/-- A version: its creator, its deleter if it has one, and its value. -/
structure Version (X : Type v) (V : Type w) where
  creator : X
  deleter : Option X
  value : V
  deriving DecidableEq

/-- A cell of a row, and its versions, the newest first. -/
structure Cell (P : Type u) (X : Type v) (V : Type w) where
  pos : P
  versions : List (Version X V)
  deriving DecidableEq

abbrev Row (P : Type u) (X : Type v) (V : Type w) := List (Cell P X V)

abbrev Table (P : Type u) (X : Type v) (V : Type w) := List (Row P X V)

/-! ## Readers -/

/-- A reader that sees the work of `seen` is shown the version. -/
def Version.Shown (seen : X → Prop) (version : Version X V) : Prop :=
  seen version.creator ∧ ∀ x ∈ version.deleter, ¬ seen x

variable (seen : X → Prop) [DecidablePred seen]

instance (version : Version X V) : Decidable (version.Shown seen) :=
  inferInstanceAs (Decidable (_ ∧ ∀ x ∈ version.deleter, ¬ seen x))

/-- The value of the newest version that is shown. -/
def Cell.read (cell : Cell P X V) : Option V :=
  (cell.versions.find? fun version => decide (version.Shown seen)).map Version.value

/-- The columns `cols` of a row, if each has a version that is shown. -/
def Row.read (cols : List Nat) (row : Row P X V) : Option (List V) :=
  cols.mapM fun c => (row[c]?).bind (Cell.read seen)

/-- The rows that are shown. -/
def Table.select (cols : List Nat) (table : Table P X V) : List (List V) :=
  table.filterMap (Row.read seen cols)

/-- The rows that are shown when the cells at some positions were written, the last value
first. -/
def Table.selectWritten [DecidableEq P] (cols : List Nat) (writes : List (P × V))
    (table : Table P X V) : List (List V) :=
  table.filterMap fun row => cols.mapM fun c =>
    (row[c]?).bind fun cell => (writes.lookup cell.pos).or (cell.read seen)

/-- In the columns `cols` the row has no cell at one of the positions. -/
def Row.Avoids (positions : List P) (cols : List Nat) (row : Row P X V) : Prop :=
  ∀ c ∈ cols, ∀ cell ∈ row[c]?, cell.pos ∉ positions

instance [DecidableEq P] (positions : List P) (cols : List Nat) (row : Row P X V) :
    Decidable (row.Avoids positions cols) :=
  inferInstanceAs (Decidable (∀ c ∈ cols, ∀ cell ∈ row[c]?, cell.pos ∉ positions))

/-! ## Writers -/

/-- A new version in front. -/
def Cell.write (x : X) (value : V) (cell : Cell P X V) : Cell P X V :=
  { cell with versions := ⟨x, none, value⟩ :: cell.versions.modifyHead fun old =>
                { old with deleter := some x } }

/-- The newest version is deleted. -/
def Cell.delete (x : X) (cell : Cell P X V) : Cell P X V :=
  { cell with versions := cell.versions.modifyHead fun old => { old with deleter := some x } }

/-- The newest version is not deleted. -/
def Cell.Live (cell : Cell P X V) : Prop := ∃ old ∈ cell.versions.head?, old.deleter = none

/-- The newest version is not deleted, and a reader sees who made it. -/
def Cell.Current (seen : X → Prop) (cell : Cell P X V) : Prop :=
  ∃ version ∈ cell.versions.head?, seen version.creator ∧ version.deleter = none

theorem Cell.Current.live {seen : X → Prop} {cell : Cell P X V}
    (h : cell.Current seen) : cell.Live := by
  obtain ⟨version, hversion, -, hlive⟩ := h
  exact ⟨version, hversion, hlive⟩

instance (cell : Cell P X V) : Decidable (cell.Current seen) :=
  inferInstanceAs (Decidable (∃ version ∈ cell.versions.head?,
    seen version.creator ∧ version.deleter = none))

/-- The versions behind the newest were deleted by who made a newer one. -/
def Cell.Chained (cell : Cell P X V) : Prop :=
  ∀ version ∈ cell.versions.tail, ∃ newer ∈ cell.versions,
    version.deleter = some newer.creator

/-- A row with one version in each cell. -/
def newRow (x : X) (positions : List P) (values : List V) : Row P X V :=
  (positions.zip values).map fun (pos, value) => ⟨pos, [⟨x, none, value⟩]⟩

/-- Change the cell at a position. -/
def Table.modifyCell [DecidableEq P] (pos : P) (f : Cell P X V → Cell P X V)
    (table : Table P X V) :
    Table P X V :=
  table.map (·.map fun cell => if cell.pos = pos then f cell else cell)

/-- Where no cell is at the position, nothing is changed. -/
theorem Table.modifyCell_eq [DecidableEq P] {pos : P} {table : Table P X V}
    (h : ∀ row ∈ table, ∀ cell ∈ row, cell.pos ≠ pos) (f : Cell P X V → Cell P X V) :
    table.modifyCell pos f = table := by
  have hrows : ∀ row ∈ table,
      row.map (fun cell => if cell.pos = pos then f cell else cell) = row :=
    fun row hrow =>
      (List.map_congr_left fun cell hcell => if_neg (h row hrow cell hcell)).trans
        (List.map_id' row)
  exact (List.map_congr_left hrows).trans (List.map_id' table)

/-- Write cells, one after the other. -/
def Table.writeCells [DecidableEq P] (x : X) (writes : List (P × V)) (table : Table P X V) :
    Table P X V :=
  writes.foldl (fun table (pos, value) => table.modifyCell pos (Cell.write x value)) table

/-- Delete the cells at some positions. -/
def Table.deleteCells [DecidableEq P] (x : X) (positions : List P) (table : Table P X V) :
    Table P X V :=
  table.map (·.map fun cell => if cell.pos ∈ positions then cell.delete x else cell)

/-- The changes of a table. A row is inserted with a position for each of its cells. -/
inductive Change (P : Type u) (X : Type v) (V : Type w) where
  | insert (x : X) (positions : List P) (values : List V)
  | write (x : X) (pos : P) (value : V)
  | delete (x : X) (pos : P)

/-- Whose change it is. -/
def Change.writer : Change P X V → X
  | .insert x .. => x
  | .write x .. => x
  | .delete x _ => x

/-- The cells of a table. -/
def Table.cells (table : Table P X V) : List (Cell P X V) := table.flatten

/-- There is a cell at the position, and its newest version is not deleted. -/
structure Table.LiveAt (table : Table P X V) (pos : P) : Prop where
  cell : ∃ cell ∈ table.cells, cell.pos = pos
  live : ∀ cell ∈ table.cells, cell.pos = pos → cell.Live

/-- The version is the newest of the cell at the position, and it is not deleted. -/
def Table.NewestAt (table : Table P X V) (pos : P) (version : Version X V) : Prop :=
  ∃ cell ∈ table.cells, cell.pos = pos ∧ cell.versions.head? = some version ∧
    version.deleter = none

instance [DecidableEq P] [DecidableEq X] [DecidableEq V] (table : Table P X V) (pos : P)
    (version : Version X V) : Decidable (table.NewestAt pos version) :=
  inferInstanceAs (Decidable (∃ cell ∈ table.cells, _ ∧ _ ∧ _))

section Steps

variable [DecidableEq P]

/-- A change of a table. Between which rows a new one is put is up to the store. -/
inductive Step : Table P X V → Change P X V → Table P X V → Prop
  | insert {before after : Table P X V} {x : X} {positions : List P} {values : List V} :
      positions.length = values.length → positions.Nodup →
        (∀ cell ∈ (before ++ after).cells, cell.pos ∉ positions) →
          Step (before ++ after) (.insert x positions values)
            (before ++ newRow x positions values :: after)
  | write {table : Table P X V} {x : X} {pos : P} {value : V} : table.LiveAt pos →
      Step table (.write x pos value) (table.modifyCell pos (Cell.write x value))
  | delete {table : Table P X V} {x : X} {pos : P} : table.LiveAt pos →
      Step table (.delete x pos) (table.modifyCell pos (Cell.delete x))

/-- One change after the other. -/
inductive Run : Table P X V → List (Change P X V) → Table P X V → Prop
  | nil {table : Table P X V} : Run table [] table
  | cons {table table' last : Table P X V} {change : Change P X V}
      {changes : List (Change P X V)} :
      Step table change table' → Run table' changes last → Run table (change :: changes) last

end Steps

/-! ## What a change does to a reader -/

variable {seen} {x : X} {cell : Cell P X V} {cols : List Nat} {table table' : Table P X V}

theorem Cell.Live.versions (h : cell.Live) :
    ∃ creator value older, cell.versions = ⟨creator, none, value⟩ :: older := by
  obtain ⟨old, hold, hlive⟩ := h
  obtain ⟨older, hversions⟩ := List.head?_eq_some_iff.mp hold
  obtain ⟨creator, deleter, value⟩ := old
  cases hlive
  exact ⟨creator, value, older, hversions⟩

/-- A deletion by someone who is not seen. -/
theorem Cell.read_delete_unseen (h : cell.Live) (hx : ¬ seen x) :
    (cell.delete x).read seen = cell.read seen := by
  obtain ⟨creator, value, older, hversions⟩ := h.versions
  by_cases hcreator : seen creator <;>
    simp [Cell.read, Cell.delete, hversions, Version.Shown, hx, hcreator]

/-- A new version by someone who is not seen. -/
theorem Cell.read_write_unseen (h : cell.Live) (hx : ¬ seen x) (value : V) :
    (cell.write x value).read seen = cell.read seen := by
  rw [← Cell.read_delete_unseen h hx]
  simp [Cell.read, Cell.write, Cell.delete, Version.Shown, hx]

/-- A new version by someone who is seen is what is read. -/
theorem Cell.read_write_seen (hx : seen x) (value : V) (cell : Cell P X V) :
    (cell.write x value).read seen = some value := by
  simp [Cell.read, Cell.write, Version.Shown, hx]

theorem Cell.Chained.delete (h : cell.Chained) (x : X) : (cell.delete x).Chained := by
  intro version hversion
  obtain ⟨pos, versions⟩ := cell
  cases versions with
  | nil => cases hversion
  | cons newest older =>
    obtain ⟨newer, hnewer, hdeleter⟩ := h version hversion
    rcases List.mem_cons.mp hnewer with rfl | hnewer
    · exact ⟨_, List.mem_cons_self, hdeleter⟩
    · exact ⟨newer, List.mem_cons_of_mem _ hnewer, hdeleter⟩

theorem Cell.Chained.write (h : cell.Chained) (x : X) (value : V) :
    (cell.write x value).Chained := by
  have hdeleted := h.delete x
  intro version hversion
  obtain ⟨pos, versions⟩ := cell
  cases versions with
  | nil => cases hversion
  | cons newest older =>
    rcases List.mem_cons.mp hversion with rfl | hversion
    · exact ⟨_, List.mem_cons_self, rfl⟩
    · obtain ⟨newer, hnewer, hdeleter⟩ := hdeleted version hversion
      exact ⟨newer, List.mem_cons_of_mem _ hnewer, hdeleter⟩

/-- A deletion by someone who is seen, like all who made a version of the cell. -/
theorem Cell.read_delete_seen (h : cell.Chained)
    (hcreators : ∀ version ∈ cell.versions, seen version.creator) (hx : seen x) :
    (cell.delete x).read seen = none := by
  obtain ⟨pos, versions⟩ := cell
  rw [Cell.read, Option.map_eq_none_iff, List.find?_eq_none]
  intro version hversion hshown
  have hdeleter := (of_decide_eq_true hshown).2
  cases versions with
  | nil => cases hversion
  | cons newest older =>
    rcases List.mem_cons.mp hversion with rfl | hversion
    · exact hdeleter x rfl hx
    · obtain ⟨newer, hnewer, heq⟩ := h version hversion
      exact hdeleter _ heq (hcreators newer hnewer)

/-- A row of cells that read alike. -/
theorem Row.read_congr {row row' : Row P X V}
    (h : List.Forall₂ (fun cell cell' => Cell.read seen cell =
      Cell.read seen cell') row row') :
    Row.read seen cols row = Row.read seen cols row' := by
  have hcell : ∀ c : Nat, (row[c]?).bind (Cell.read seen) =
      (row'[c]?).bind (Cell.read seen) := by
    induction h with
    | nil => exact fun _ => rfl
    | cons hhead _ ih =>
      intro c
      cases c with
      | zero => simpa using hhead
      | succ c => simpa using ih c
  simp only [Row.read, hcell]

theorem Table.mem_cells_modifyCell [DecidableEq P] {pos : P} {f : Cell P X V → Cell P X V}
    (hcell : cell ∈ (table.modifyCell pos f).cells) :
    ∃ old ∈ table.cells, cell = f old ∨ cell = old := by
  obtain ⟨row', hrow', hcell⟩ := List.mem_flatten.mp hcell
  obtain ⟨row, hrow, rfl⟩ := List.mem_map.mp hrow'
  obtain ⟨old, hold, rfl⟩ := List.mem_map.mp hcell
  refine ⟨old, List.mem_flatten.mpr ⟨row, hrow, hold⟩, ?_⟩
  split
  · exact .inl rfl
  · exact .inr rfl

/-- Changing one cell without a trace. -/
theorem Table.select_modifyCell [DecidableEq P] {pos : P} {f : Cell P X V → Cell P X V}
    (h : ∀ cell ∈ table.cells, cell.pos = pos → (f cell).read seen = cell.read seen) :
    (table.modifyCell pos f).select seen cols = table.select seen cols := by
  rw [Table.select, Table.select, Table.modifyCell, List.filterMap_map]
  refine List.filterMap_congr fun row hrow => Row.read_congr ?_
  rw [List.forall₂_map_left_iff, List.forall₂_same]
  intro cell hcell
  by_cases hpos : cell.pos = pos
  · rw [if_pos hpos]
    exact h cell (List.mem_flatten.mpr ⟨row, hrow, hcell⟩) hpos
  · rw [if_neg hpos]

/-- Writing a cell, by someone who is seen. -/
theorem Table.selectWritten_modifyCell [DecidableEq P] (hx : seen x) (pos : P) (value : V)
    (writes : List (P × V)) :
    (table.modifyCell pos (Cell.write x value)).selectWritten seen cols writes =
      table.selectWritten seen cols (writes ++ [(pos, value)]) := by
  have hcell : ∀ cell : Cell P X V,
      (writes.lookup (if cell.pos = pos then cell.write x value else cell).pos).or
          ((if cell.pos = pos then cell.write x value else cell).read seen) =
        ((writes ++ [(pos, value)]).lookup cell.pos).or (cell.read seen) := by
    intro cell
    rw [List.lookup_append, Option.or_assoc]
    by_cases hpos : cell.pos = pos
    · have hwritten : (cell.write x value).pos = cell.pos := rfl
      rw [if_pos hpos, Cell.read_write_seen hx, hwritten, hpos,
        List.lookup_cons_self, Option.some_or]
    · have hne : (cell.pos == pos) = false := beq_false_of_ne hpos
      rw [if_neg hpos, List.lookup_cons, hne]
      rfl
  rw [Table.selectWritten, Table.selectWritten, Table.modifyCell, List.filterMap_map]
  refine List.filterMap_congr fun row _ => ?_
  refine congrArg (cols.mapM ·) (funext fun c => ?_)
  rw [List.getElem?_map]
  cases row[c]? with
  | none => rfl
  | some cell => exact hcell cell

/-- One column after the other. -/
theorem Row.read_cons (c : Nat) (cols : List Nat) (row : Row P X V) :
    Row.read seen (c :: cols) row =
    ((row[c]?).bind (Cell.read seen)).bind fun value => (Row.read seen cols row).map
    (value :: ·) := by
  rw [Row.read, List.mapM_cons, ← Row.read]
  cases (row[c]?).bind (Cell.read seen) with
  | none => rfl
  | some value => cases Row.read seen cols row <;> rfl

theorem Row.avoids_cons {positions : List P} {c : Nat} {row : Row P X V} :
    Row.Avoids positions (c :: cols) row ↔
    (∀ cell ∈ row[c]?, cell.pos ∉ positions) ∧ Row.Avoids positions cols row :=
  List.forall_mem_cons

/-- A row of which cells are deleted. -/
theorem Row.read_deletes [DecidableEq P] {row : Row P X V} {positions : List P}
    (h : ∀ cell ∈ row, cell.pos ∈ positions → (cell.delete x).read seen = none) :
    Row.read seen cols (row.map fun cell => if cell.pos ∈ positions then cell.delete x
      else cell) =
      if Row.Avoids positions cols row then Row.read seen cols row else none := by
  have hcell (c : Nat) :
      ((row.map fun cell => if cell.pos ∈ positions then cell.delete x else cell)[c]?).bind
        (Cell.read seen) =
        if ∀ cell ∈ row[c]?, cell.pos ∉ positions then (row[c]?).bind (Cell.read seen)
          else none := by
    rw [List.getElem?_map]
    cases hget : row[c]? with
    | none => simp
    | some cell =>
      by_cases hpos : cell.pos ∈ positions
      · simpa [hpos] using h cell (List.mem_of_getElem? hget) hpos
      · simp [hpos]
  induction cols with
  | nil => simp [Row.read, Row.Avoids]
  | cons c cols ih =>
    rw [Row.read_cons, Row.read_cons, hcell, ih]
    by_cases hc : ∀ cell ∈ row[c]?, cell.pos ∉ positions
    · by_cases hcols : Row.Avoids positions cols row
      · rw [if_pos hc, if_pos hcols, if_pos (Row.avoids_cons.mpr ⟨hc, hcols⟩)]
      · rw [if_neg hcols, if_neg fun hboth => hcols (Row.avoids_cons.mp hboth).2]
        simp
    · rw [if_neg hc, if_neg fun hboth => hc (Row.avoids_cons.mp hboth).1]
      rfl

/-- The value of a cell of a new row. -/
theorem newRow_cell {positions : List P} {values : List V}
    (hlen : positions.length = values.length) (c : Nat) :
    ((newRow x positions values)[c]?).bind
    (Cell.read seen) = if seen x then values[c]? else none := by
  induction positions generalizing values c with
  | nil =>
    obtain rfl := List.length_eq_zero_iff.mp hlen.symm
    simp [newRow]
  | cons pos positions ih =>
    cases values with
    | nil => cases hlen
    | cons value values =>
      cases c with
      | zero => by_cases hx : seen x <;> simp [newRow, Cell.read, Version.Shown, hx]
      | succ c => simpa [newRow] using ih (Nat.succ.inj hlen) c

/-- What a reader selects of the rows that are inserted. -/
def Change.selected (seen : X → Prop) [DecidablePred seen] (cols : List Nat) :
    Change P X V → Option (List V)
  | .insert x _ values => if seen x then cols.mapM fun c => values[c]? else none
  | _ => none

theorem newRow_read {positions : List P} {values : List V}
    (hlen : positions.length = values.length)
    (hcols : cols ≠ []) : Row.read seen cols (newRow x positions values) =
      (Change.insert x positions values).selected seen cols := by
  simp only [Row.read, newRow_cell hlen, Change.selected]
  by_cases hx : seen x
  · simp [hx]
  · obtain ⟨c, cols, rfl⟩ := List.exists_cons_of_ne_nil hcols
    simp [hx]

/-! ## Runs -/

section Runs

variable [DecidableEq P] {change : Change P X V} {changes : List (Change P X V)}

theorem Run.append {last : Table P X V} {more : List (Change P X V)}
    (h : Run table changes table')
    (hmore : Run table' more last) : Run table (changes ++ more) last := by
  induction h with
  | nil => exact hmore
  | cons hstep _ ih => exact .cons hstep (ih hmore)

/-- A property of cells that holds of new ones, and that the changes of good writers keep. -/
structure CellInvariant (good : X → Prop) (Q : Cell P X V → Prop) : Prop where
  new : ∀ pos x value, good x → Q ⟨pos, [⟨x, none, value⟩]⟩
  write : ∀ cell x value, good x → Q cell → Q (cell.write x value)
  delete : ∀ cell x, good x → Q cell → Q (cell.delete x)

variable {good : X → Prop} {Q : Cell P X V → Prop}

theorem Step.cells (h : Step table change table') (hQ : CellInvariant good Q)
    (hgood : good change.writer) (hcells : ∀ cell ∈ table.cells, Q cell) :
    ∀ cell ∈ table'.cells, Q cell := by
  intro cell hcell
  cases h with
  | @insert before after x positions values _ _ _ =>
    rw [Table.cells, List.flatten_append, List.flatten_cons, List.mem_append,
      List.mem_append] at hcell
    have hold := hcells cell
    rw [Table.cells, List.flatten_append, List.mem_append] at hold
    rcases hcell with hcell | hcell | hcell
    · exact hold (.inl hcell)
    · obtain ⟨⟨pos, value⟩, -, rfl⟩ := List.mem_map.mp hcell
      exact hQ.new pos x value hgood
    · exact hold (.inr hcell)
  | write _ =>
    obtain ⟨old, hold, rfl | rfl⟩ := Table.mem_cells_modifyCell hcell
    · exact hQ.write old _ _ hgood (hcells old hold)
    · exact hcells _ hold
  | delete _ =>
    obtain ⟨old, hold, rfl | rfl⟩ := Table.mem_cells_modifyCell hcell
    · exact hQ.delete old _ hgood (hcells old hold)
    · exact hcells _ hold

theorem Run.cells (h : Run table changes table') (hQ : CellInvariant good Q)
    (hgood : ∀ change ∈ changes, good change.writer) (hcells : ∀ cell ∈ table.cells, Q cell) :
    ∀ cell ∈ table'.cells, Q cell := by
  induction h with
  | nil => exact hcells
  | cons hstep _ ih =>
    rw [List.forall_mem_cons] at hgood
    exact ih hgood.2 (hstep.cells hQ hgood.1 hcells)

/-- Whatever is done, who makes a version in front of another deletes that one. -/
theorem Run.chained (h : Run table changes table')
    (hchained : ∀ cell ∈ table.cells, cell.Chained) :
    ∀ cell ∈ table'.cells, cell.Chained := by
  have hkept : CellInvariant (P := P) (V := V) (fun _ : X => True) Cell.Chained :=
    ⟨fun _ _ _ _ _ hversion => absurd hversion List.not_mem_nil,
      fun _ x value _ h => h.write x value, fun _ x _ h => h.delete x⟩
  exact h.cells hkept (fun _ _ => trivial) hchained

variable (good) in
/-- Only writers make versions. -/
theorem Run.creators (h : Run table changes table')
    (hgood : ∀ change ∈ changes, good change.writer)
    (hcells : ∀ cell ∈ table.cells, ∀ version ∈ cell.versions, good version.creator) :
    ∀ cell ∈ table'.cells, ∀ version ∈ cell.versions, good version.creator := by
  have hdelete : ∀ (cell : Cell P X V) x, (∀ version ∈ cell.versions, good version.creator) →
      ∀ version ∈ (cell.delete x).versions, good version.creator := by
    rintro ⟨pos, _ | ⟨newest, older⟩⟩ x hcell version hversion
    · cases hversion
    · rw [List.forall_mem_cons] at hcell
      rcases List.mem_cons.mp hversion with rfl | hversion
      · exact hcell.1
      · exact hcell.2 version hversion
  have hkept : CellInvariant good fun cell : Cell P X V =>
      ∀ version ∈ cell.versions, good version.creator := by
    refine ⟨fun pos x value hx => List.forall_mem_singleton.mpr hx,
      fun cell x value hx hcell => ?_,
      fun cell x _ hcell => hdelete cell x hcell⟩
    exact List.forall_mem_cons.mpr ⟨hx, hdelete cell x hcell⟩
  exact h.cells hkept hgood hcells

theorem Step.select_unseen (h : Step table change table') (hcols : cols ≠ [])
    (hx : ¬ seen change.writer) :
    table'.select seen cols = table.select seen cols := by
  cases h with
  | @insert before after x positions values hlen _ _ =>
    have hnone : Row.read seen cols (newRow x positions values) = none := by
      rw [newRow_read hlen hcols, Change.selected]
      exact if_neg hx
    simp [Table.select, List.filterMap_append, hnone]
  | write hat =>
    exact Table.select_modifyCell fun cell hcell hpos =>
      Cell.read_write_unseen (hat.live cell hcell hpos) hx _
  | delete hat =>
    exact Table.select_modifyCell fun cell hcell hpos =>
      Cell.read_delete_unseen (hat.live cell hcell hpos) hx

/-- A reader selects the same rows, in the same order, when it does not see the work done in
between. -/
theorem Run.select_unseen (h : Run table changes table') (hcols : cols ≠ [])
    (hunseen : ∀ change ∈ changes, ¬ seen change.writer) :
    table'.select seen cols = table.select seen cols := by
  induction h with
  | nil => rfl
  | cons hstep _ ih =>
    rw [List.forall_mem_cons] at hunseen
    exact (ih hunseen.2).trans (hstep.select_unseen hcols hunseen.1)

/-- Writes at some positions. -/
theorem Run.writes {writes : List (P × V)}
    (h : Run table (writes.map fun (pos, value) => .write x pos value) table') :
    table' = table.writeCells x writes := by
  induction writes generalizing table with
  | nil =>
    cases h
    rfl
  | cons write writes ih =>
    cases h with
    | cons hstep hrest =>
      cases hstep with
      | write _ => exact ih hrest

/-- A reader that sees who wrote selects the value of each cell that was written last. -/
theorem Table.select_writeCells (hx : seen x) (writes : List (P × V)) :
    (table.writeCells x writes).select seen cols =
      table.selectWritten seen cols writes.reverse := by
  induction writes generalizing table with
  | nil => rfl
  | cons write writes ih =>
    rw [List.reverse_cons, ← Table.selectWritten_modifyCell hx, ← ih]
    rfl

/-- Deletions at some positions. -/
theorem Run.deletes {positions : List P} (h : Run table (positions.map (.delete x)) table') :
    table' = table.deleteCells x positions := by
  induction positions generalizing table with
  | nil =>
    cases h
    simp [Table.deleteCells]
  | cons pos positions ih =>
    cases h with
    | cons hstep hrest =>
      cases hstep with
      | delete _ =>
        rw [ih hrest, Table.deleteCells, Table.modifyCell, List.map_map]
        refine List.map_congr_left fun row _ => ?_
        rw [Function.comp_apply, List.map_map]
        refine List.map_congr_left fun cell _ => ?_
        have htwice : (cell.delete x).delete x = cell.delete x := by
          cases hversions : cell.versions <;> simp [Cell.delete, hversions]
        have hpos : (cell.delete x).pos = cell.pos := rfl
        by_cases heq : cell.pos = pos
        · by_cases hmem : pos ∈ positions <;> simp [heq, hpos, hmem, htwice]
        · simp [heq]

/-- A reader that sees who deleted, and all who made the deleted versions, selects the other
rows. -/
theorem Table.select_deleteCells {positions : List P} (hx : seen x)
    (hchained : ∀ cell ∈ table.cells, cell.Chained)
    (hcreators : ∀ cell ∈ table.cells, cell.pos ∈ positions →
      ∀ version ∈ cell.versions, seen version.creator) :
    (table.deleteCells x positions).select seen cols =
      Table.select seen cols (table.filter fun row => Row.Avoids positions cols row) := by
  rw [Table.deleteCells, Table.select, Table.select, List.filterMap_map,
    List.filterMap_filter]
  refine List.filterMap_congr fun row hrow => ?_
  have hread : ∀ cell ∈ row, cell.pos ∈ positions → (cell.delete x).read seen = none :=
    fun cell hcell hpos =>
    have hmem : cell ∈ table.cells := List.mem_flatten.mpr ⟨row, hrow, hcell⟩
    Cell.read_delete_seen (hchained cell hmem) (hcreators cell hmem hpos) hx
  rw [Function.comp_apply, Row.read_deletes hread]
  simp only [decide_eq_true_eq]

/-- One row more. -/
theorem Step.select_insert {positions : List P} {values : List V}
    (h : Step table (.insert x positions values) table') (hcols : cols ≠ []) :
    (table'.select seen cols).Perm
      (((Change.insert x positions values).selected seen cols).toList ++
        table.select seen cols) := by
  cases h with
  | @insert before after _ _ _ hlen _ _ =>
    simp only [Table.select, List.filterMap_append, List.filterMap_cons,
      newRow_read hlen hcols]
    cases (Change.insert x positions values).selected seen cols with
    | none => exact .refl _
    | some vals => exact List.perm_middle

variable (seen) in
/-- After inserts the rows before are selected, and those inserted that are seen. -/
theorem Run.select_inserts (h : Run table changes table') (hcols : cols ≠ [])
    (hinserts : ∀ change ∈ changes, ∃ x positions values,
      change = .insert x positions values) :
    (table'.select seen cols).Perm
      (changes.filterMap (Change.selected seen cols) ++ table.select seen cols) := by
  induction h with
  | nil => exact .refl _
  | @cons table table₁ last change changes hstep _ ih =>
    rw [List.forall_mem_cons] at hinserts
    obtain ⟨⟨x, positions, values, rfl⟩, hrest⟩ := hinserts
    refine (ih hrest).trans (((hstep.select_insert hcols).append_left _).trans ?_)
    rw [List.filterMap_cons]
    cases (Change.insert x positions values).selected seen cols with
    | none => exact .refl _
    | some vals => exact List.perm_middle

end Runs

end VersionedTable
