import LinearAssignment.Proofs.ColumnStorage
import LinearAssignment.Proofs.EntryPoints
import LinearAssignment.Proofs.SolutionCodec

/-! # All ways to a cost matrix admit the same tables

    A cost matrix is made of rows, of untyped input, of a grid, of a stored matrix or of data
    that were written before.  Each way has checks of its own, and each of them reads the values
    in an order of its own; what they admit is the same, and the matrix made of an admitted table
    has the rows of this table.

    * `agree_rangeFault?_of_perm`: the range check does not depend on the order of the values.
    * `RawTable.IsAdmissible`: what every way asks of a table.
    * `CostMatrix.Admits`: a way to a cost matrix that admits the admissible tables.
    * `Grid.SameOutcome`: how the outcome of a grid and that of its rows go together.
    * `constructors_agree`: the ways to a cost matrix agree. -/

namespace LinearAssignment

open Scalar

/-! ## The order of the values -/

section Perm

variable {K : Type} [Scalar K] {values values' : List K} {d : K}

theorem Scalar.IsSmallest.perm (h : IsSmallest values d) (hperm : values.Perm values') :
    IsSmallest values' d :=
  ⟨hperm.mem_iff.mp h.mem, fun v hv => h.not_lt v (hperm.mem_iff.mpr hv)⟩

theorem Scalar.IsLargest.perm (h : IsLargest values d) (hperm : values.Perm values') :
    IsLargest values' d :=
  ⟨hperm.mem_iff.mp h.mem, fun v hv => h.not_lt v (hperm.mem_iff.mpr hv)⟩

end Perm

/-- Numbers that are tied agree. -/
theorem agree_of_tied {a b : Float} (ha : isFinite a = true) (hb : isFinite b = true)
    (h : Tied a b) : Agree a b :=
  FloatOrder.alike_iff_agree.mp (FloatOrder.same_of_tied (Ordered.isNumber_of_isFinite ha)
    (Ordered.isNumber_of_isFinite hb) h)

/-- What agrees with a finite value is equal to it as a number. -/
theorem beq_of_agree {a b : Float} (ha : isFinite a = true) (h : Agree a b) : (b == a) = true := by
  rcases h with heq | ⟨hnan, _⟩
  · obtain ⟨hna, hnb, hplace⟩ := FloatOrder.beq_iff.mp heq
    exact FloatOrder.beq_iff.mpr ⟨hnb, hna, hplace.symm⟩
  · rw [Ordered.isNumber_of_isFinite ha] at hnan
    cases hnan

/-- **The range check of finite values in another order** fails alike, with bounds that agree. -/
theorem agree_rangeFault?_of_perm {values values' : List Float}
    (hfinite : ∀ v ∈ values, isFinite v = true) (hperm : values.Perm values') (dim : Nat) :
    Option.Rel Failure.Agree (rangeFault? values dim) (rangeFault? values' dim) := by
  by_cases hne : values = []
  · obtain rfl : values' = [] := (hne ▸ hperm).nil_eq.symm
    rw [hne]
    exact .some (.same _)
  · have hfinite' : ∀ v ∈ values', isFinite v = true :=
      fun v hv => hfinite v (hperm.mem_iff.mpr hv)
    have hne' : values' ≠ [] := fun hnil => hne (hnil ▸ hperm).eq_nil
    obtain ⟨lo, hi, hlo, hhi, hrange⟩ := exists_rangeFault?_eq hfinite hne dim
    obtain ⟨lo', hi', hlo', hhi', hrange'⟩ := exists_rangeFault?_eq hfinite' hne' dim
    have hlos : Agree lo lo' := agree_of_tied (hfinite lo hlo.mem) (hfinite' lo' hlo'.mem)
      ((hlo.perm hperm).tied hlo')
    have hhis : Agree hi hi' := agree_of_tied (hfinite hi hhi.mem) (hfinite' hi' hhi'.mem)
      ((hhi.perm hperm).tied hhi')
    rw [hrange, hrange', ← Numeric.inRange_congr dim hlos hhis]
    split
    · exact .none
    · exact .some (.range hlos hhis)

theorem rel_eq_none_iff {α β : Type} {R : α → β → Prop} {o : Option α} {o' : Option β}
    (h : Option.Rel R o o') : o = none ↔ o' = none := by
  cases h <;> simp

theorem rangeFault?_eq_none_of_perm {values values' : List Float}
    (hfinite : ∀ v ∈ values, isFinite v = true) (hperm : values.Perm values') {dim : Nat}
    (h : rangeFault? values dim = none) : rangeFault? values' dim = none :=
  (rel_eq_none_iff (agree_rangeFault?_of_perm hfinite hperm dim)).mp h

/-! ## Admissible tables -/

namespace RawTable

/-- What a cost matrix asks of its rows: there are cells, the rows have one length, every cell is
    finite, and in whatever order the values are looked at, their range is no failure. -/
structure IsAdmissible (table : RawTable Float) : Prop where
  not_isEmpty : ¬ table.IsEmpty
  isRectangular : table.IsRectangular
  isFinite : ∀ row ∈ table, ∀ v ∈ row, Scalar.isFinite v = true
  in_range : ∀ values, values.Perm table.flatten →
    rangeFault? values (max table.length table.width) = none

theorem fault?_eq_none_iff {table : RawTable Float} :
    table.fault? = none ↔ table.IsAdmissible := by
  constructor
  · intro h
    obtain ⟨_, hwidth, hrect, hfinite, hrange⟩ := CostMatrix.of_fault?_eq_none h
    refine ⟨fun hempty => hwidth.ne' (width_eq_zero_iff.mpr hempty), hrect, hfinite, ?_⟩
    intro values hperm
    refine rangeFault?_eq_none_of_perm (fun v hv => ?_) hperm.symm hrange
    obtain ⟨row, hrow, hv⟩ := List.mem_flatten.mp hv
    exact hfinite row hrow v hv
  · intro h
    rw [(reads_self h.isFinite).fault?_eq h.not_isEmpty h.isRectangular h.isFinite]
    exact h.in_range _ (.refl _)

end RawTable

namespace CostMatrix

theorem isAdmissible_of_ofRows {table : RawTable Float} {a : CostMatrix Float}
    (h : ofRows table = .ok a) : table.IsAdmissible :=
  RawTable.fault?_eq_none_iff.mp (fault?_eq_none_of_ofRows h)

/-- The tables that an input stands for are admitted when they are admissible, and only then;
    the matrix that is made has the rows of such a table. -/
structure Admits {α : Type} (build : α → Option (CostMatrix Float))
    (stands : α → RawTable Float → Prop) : Prop where
  admissible : ∀ input a, build input = some a →
    stands input a.rows ∧ RawTable.IsAdmissible a.rows
  admitted : ∀ input table, stands input table → table.IsAdmissible →
    ∃ a, build input = some a ∧ a.rows = table

/-- A way to a cost matrix that goes over the rows that its input stands for. -/
theorem Admits.of_ofRows {α : Type} {build : α → Option (CostMatrix Float)}
    {stands : α → RawTable Float → Prop}
    (h : ∀ input a, build input = some a ↔ ∃ table, stands input table ∧ ofRows table = .ok a) :
    Admits build stands where
  admissible := by
    intro input a ha
    obtain ⟨table, hstands, hrows⟩ := (h input a).mp ha
    rw [rows_of_ofRows hrows]
    exact ⟨hstands, isAdmissible_of_ofRows hrows⟩
  admitted := by
    intro input table hstands hadmissible
    obtain ⟨a, ha⟩ := exists_ofRows_eq_ok (RawTable.fault?_eq_none_iff.mpr hadmissible)
    exact ⟨a, (h input a).mpr ⟨table, hstands, ha⟩, rows_of_ofRows ha⟩

theorem toOption_eq_some_iff {ε α : Type} {x : Except ε α} {a : α} :
    x.toOption = some a ↔ x = .ok a := by
  cases x <;> simp [Except.toOption]

end CostMatrix

/-! ## Untyped input and written data -/

namespace Json

/-- The value is a list of lists whose items are read as the values of the table. -/
def Holds (read : Json → Option Float) (j : Json) (values : RawTable Float) : Prop :=
  ∃ cells : RawTable Json, j = .arr (cells.map .arr) ∧ cells.Reads read values

theorem cell?_eq_some_of_finiteCell? {cell : Json} {v : Float} (h : cell.finiteCell? = some v) :
    cell.cell? = some v :=
  (Option.filter_eq_some_iff.mp h).1

/-- A list of lists that is read with finite values holds them. -/
theorem ofJson_eq_ok_iff {j : Json} {a : CostMatrix Float} :
    CostMatrix.ofJson j = .ok a ↔
      ∃ values, j.Holds cell? values ∧ CostMatrix.ofRows values = .ok a := by
  constructor
  · intro h
    unfold CostMatrix.ofJson at h
    cases hread : j.readTable with
    | error failure =>
      rw [hread] at h
      cases h
    | ok values =>
      rw [hread] at h
      obtain ⟨cells, rfl, hreads⟩ := readTable_eq_ok hread
      refine ⟨values, ⟨cells, rfl, ?_⟩, h⟩
      have hcell : ∀ row ∈ cells, ∀ cell ∈ row, cell.cell? = cell.finiteCell? := by
        intro row hrow cell hcell
        obtain ⟨v, hv⟩ := RawTable.Reads.exists_value hreads row hrow cell hcell
        rw [hv, cell?_eq_some_of_finiteCell? hv]
      refine Eq.trans ?_ hreads
      exact List.map_congr_left fun row hrow => List.map_congr_left (hcell row hrow)
  · rintro ⟨values, ⟨cells, rfl, hreads⟩, hrows⟩
    have hfinite := (CostMatrix.isAdmissible_of_ofRows hrows).isFinite
    rw [(hreads.finiteCell? hfinite).ofJson_eq, hrows]

theorem list?_eq_some_iff {α : Type} {decode : Json → Option α} {j : Json} {l : List α} :
    j.list? decode = some l ↔
      ∃ items, j = .arr items ∧ List.Forall₂ (fun item a => decode item = some a) items l := by
  constructor
  · intro h
    cases j with
    | arr items => exact ⟨items, rfl, forall₂_of_mapM h⟩
    | _ => cases h
  · rintro ⟨items, rfl, h⟩
    exact mapM_of_forall₂ h

/-- A table is read from a list of lists that holds it. -/
theorem table_ofJson?_eq_some_iff {j : Json} {values : RawTable Float} :
    RawTable.ofJson? j = some values ↔ j.Holds number? values := by
  constructor
  · intro h
    obtain ⟨rows, rfl, hrows⟩ := list?_eq_some_iff.mp h
    obtain ⟨cells, hcells, _⟩ := exists_map_eq_map (f := id) (g := Json.arr) (S := fun _ _ => True)
      hrows fun row vs _ hrow => by
        obtain ⟨items, rfl, _⟩ := list?_eq_some_iff.mp hrow
        exact ⟨items, rfl, trivial⟩
    rw [List.map_id] at hcells
    subst hcells
    exact ⟨cells, rfl, reads_of_ofJson? h⟩
  · rintro ⟨cells, rfl, hreads⟩
    refine list?_eq_some_iff.mpr ⟨_, rfl, List.forall₂_map_left_iff.mpr ?_⟩
    exact (RawTable.reads_iff.mp hreads).imp fun row _ hrow =>
      list?_eq_some_iff.mpr ⟨row, rfl, hrow⟩

theorem ofJson?_eq_some_iff {j : Json} {a : CostMatrix Float} :
    CostMatrix.ofJson? j = some a ↔
      ∃ values, j.Holds number? values ∧ CostMatrix.ofRows values = .ok a := by
  unfold CostMatrix.ofJson?
  simp only [Option.bind_eq_some_iff, table_ofJson?_eq_some_iff,
    CostMatrix.toOption_eq_some_iff]

end Json

/-! ## The checks of grids and of stored matrices -/

namespace Stored

theorem grid_isEmpty_iff {K : Type} (m : Stored K) :
    m.grid.rows = [] ∨ m.grid.ncols = 0 ↔ m.nrows = 0 ∨ m.ncols = 0 := by
  simp [toRows]

variable {K : Type} [Scalar K] (m : Stored K)

theorem columnwiseFault?_grid_eq_none_iff :
    CostMatrix.columnwiseFault? m.grid = none ↔ m.firstNonFinite? = none := by
  rw [Grid.columnwiseFault?_eq_none_iff, m.firstNonFinite?_eq_none_iff]

/-- The search through the list and the search through the columns name the same cell. -/
theorem columnwiseFault?_grid_of_firstNonFinite? {k : Nat} (hpos : 0 < m.nrows)
    (h : m.firstNonFinite? = some k) :
    CostMatrix.columnwiseFault? m.grid = some (.nonNumericEntry (k % m.nrows) (k / m.nrows)
      ((m.cell? (k % m.nrows) (k / m.nrows)).elim "" text)) := by
  obtain ⟨v, hv, hfirst⟩ := m.exists_isFirstNonFinite hpos h
  cases hfault : CostMatrix.columnwiseFault? m.grid with
  | none =>
    rw [m.columnwiseFault?_grid_eq_none_iff.mp hfault] at h
    cases h
  | some failure =>
    obtain ⟨i, j, w, hfirst', rfl⟩ := Grid.exists_isFirstNonFinite_of_columnwiseFault? hfault
    obtain ⟨rfl, rfl, rfl⟩ := hfirst.unique hfirst'
    rw [hv]
    rfl

/-- **A stored matrix is checked as its grid.**  The failures are the same, but for the signs of
    zeros among the bounds of a range. -/
theorem agree_fault? (m : Stored Float) :
    Option.Rel Failure.Agree (CostMatrix.gridFault? m.grid) m.fault? := by
  unfold CostMatrix.gridFault? fault?
  by_cases hempty : m.nrows = 0 ∨ m.ncols = 0
  · rw [if_pos (m.grid_isEmpty_iff.mpr hempty), if_pos hempty]
    exact .some (.same _)
  · rw [if_neg (mt m.grid_isEmpty_iff.mp hempty), if_neg hempty]
    have hpos : 0 < m.nrows := Nat.pos_of_ne_zero fun h => hempty (.inl h)
    cases hfirst : m.firstNonFinite? with
    | some k =>
      rw [m.columnwiseFault?_grid_of_firstNonFinite? hpos hfirst]
      exact .some (.same _)
    | none =>
      have hfinite := m.firstNonFinite?_eq_none_iff.mp hfirst
      rw [m.columnwiseFault?_grid_eq_none_iff.mpr hfirst, Grid.dimension, nrows_grid, ncols_grid]
      exact agree_rangeFault?_of_perm hfinite m.data_perm_cells.symm _

theorem gridFault?_eq_none {m : Stored Float} (h : m.fault? = none) :
    CostMatrix.gridFault? m.grid = none :=
  (rel_eq_none_iff m.agree_fault?).mpr h

end Stored

namespace CostMatrix

/-- The cost matrix on a stored matrix. -/
def ofStored (m : Stored Float) : Except (Failure Float) (CostMatrix Float) :=
  match h : m.fault? with
  | some failure => .error failure
  | none =>
    have valid := of_gridFault?_eq_none (Stored.gridFault?_eq_none h)
    .ok {
      toGrid := m.grid
      rows_ne_nil := valid.1
      ncols_pos := valid.2.1
      finite := valid.2.2.1
      in_range := valid.2.2.2 }

end CostMatrix

namespace Grid

/-- The outcome of the checks of a grid, but for the signs of zeros among the bounds of a
    range. -/
inductive CheckedAs (g : Grid Float) : Except (Failure Float) (CostMatrix Float) → Prop where
  | failed {failure failure' : Failure Float} : CostMatrix.gridFault? g = some failure →
      failure.Agree failure' → CheckedAs g (.error failure')
  | accepted {a : CostMatrix Float} : a.toGrid = g → CheckedAs g (.ok a)

theorem checkedAs_ofGrid (g : Grid Float) : g.CheckedAs (CostMatrix.ofGrid g) := by
  unfold CostMatrix.ofGrid
  split
  · next failure h => exact .failed h (.same failure)
  · exact .accepted rfl

end Grid

theorem Stored.checkedAs_ofStored (m : Stored Float) :
    m.grid.CheckedAs (CostMatrix.ofStored m) := by
  have hrel := m.agree_fault?
  unfold CostMatrix.ofStored
  split
  · next failure h =>
    rw [h] at hrel
    generalize hgrid : CostMatrix.gridFault? m.grid = fault at hrel
    cases hrel with
    | some hagree => exact .failed hgrid hagree
  · exact .accepted rfl

/-! ## A grid and its rows -/

namespace Grid

/-- How the outcome of a grid, read column by column, and that of its rows go together: both are
    the matrix on the grid, or both are failures of one kind.  Each search names the first cell
    in its own order that is not finite, and bounds of the range are equal as numbers. -/
inductive SameOutcome (g : Grid Float) : Except (Failure Float) (CostMatrix Float) →
    Except (Failure Float) (CostMatrix Float) → Prop where
  | accepted {a : CostMatrix Float} : a.toGrid = g → SameOutcome g (.ok a) (.ok a)
  | empty : g.nrows = 0 ∨ g.ncols = 0 → SameOutcome g (.error .emptyMatrix) (.error .emptyMatrix)
  | entry {i j i' j' : Nat} {v v' : Float} : g.IsFirstNonFinite ColumnMajor i j v →
      g.IsFirstNonFinite RowMajor i' j' v' →
      SameOutcome g (.error (.nonNumericEntry i j (text v)))
        (.error (.nonNumericEntry i' j' (text v')))
  | range {lo hi lo' hi' : Float} : (∀ v ∈ g.cells, isFinite v = true) →
      IsSmallest g.cells lo' → IsLargest g.cells hi' → OutOfRange lo' hi' g.dimension →
      (lo == lo') = true → (hi == hi') = true →
      SameOutcome g (.error (.valueRangeOverflow (some (lo, hi))))
        (.error (.valueRangeOverflow (some (lo', hi'))))

theorem SameOutcome.eq_ok_iff {g : Grid Float}
    {outcome outcome' : Except (Failure Float) (CostMatrix Float)}
    (h : g.SameOutcome outcome outcome') (a : CostMatrix Float) :
    outcome = .ok a ↔ outcome' = .ok a := by
  cases h with
  | accepted => rfl
  | empty | entry | range => simp

variable {g : Grid Float}

theorem ofRows_rows_of_empty (h : g.rows = [] ∨ g.ncols = 0) :
    CostMatrix.ofRows g.rows = .error .emptyMatrix := by
  have hwidth := RawTable.width_eq_zero_iff.mpr (isEmpty_rows_iff.mpr h)
  rw [CostMatrix.ofRows_eq_error_iff, RawTable.fault?, if_pos hwidth]

/-- Where a cell is not finite, the check of the rows names the first such cell. -/
theorem exists_ofRows_rows_eq_entry (hne : ¬ (g.rows = [] ∨ g.ncols = 0))
    (h : ∃ v ∈ g.cells, isFinite v = false) :
    ∃ i j v, g.IsFirstNonFinite RowMajor i j v ∧
      CostMatrix.ofRows g.rows = .error (.nonNumericEntry i j (text v)) := by
  obtain ⟨w, hw, hnot⟩ := h
  obtain ⟨row, hrow, hw⟩ := List.mem_flatten.mp hw
  -- The cell has no value, so no table of values was read.
  have hunread : ∀ values : RawTable Float, ¬ RawTable.Reads finite? g.rows values := by
    intro values hreads
    obtain ⟨v, hv⟩ := hreads.exists_value row hrow w hw
    rw [(finite?_eq_some_iff.mp hv).1] at hnot
    cases hnot
  have hverdict := RawTable.verdict_ofRows g.rows
  generalize CostMatrix.ofRows g.rows = outcome at hverdict
  cases hverdict with
  | empty hempty => exact absurd (isEmpty_rows_iff.mp hempty) hne
  | ragged _ hfirst => exact absurd g.isRectangular_rows hfirst.not_isRectangular
  | unread _ _ hfirst => exact ⟨_, _, _, isFirstNonFinite_of_isFirstUnread hfirst, rfl⟩
  | outOfRange _ _ hreads => exact absurd hreads (hunread _)
  | accepted _ _ hreads => exact absurd hreads (hunread _)

/-- Out of range, a grid and its rows are refused with bounds that are equal as numbers. -/
theorem sameOutcome_of_rangeFault? {failure failure' : Failure Float}
    (hne : ¬ (g.rows = [] ∨ g.ncols = 0)) (hfinite : ∀ v ∈ g.cells, isFinite v = true)
    (hfault : rangeFault? g.cells g.dimension = some failure) (hagree : failure.Agree failure') :
    g.SameOutcome (.error failure') (CostMatrix.ofRows g.rows) := by
  have hcells : g.cells ≠ [] := RawTable.flatten_ne_nil (mt isEmpty_rows_iff.mp hne)
  obtain ⟨lo, hi, hlo, hhi, hrange⟩ := exists_rangeFault?_eq hfinite hcells g.dimension
  rw [CostMatrix.ofRows_eq_error_iff.mpr ((fault?_rows hne hfinite).trans hfault)]
  rw [hfault] at hrange
  split at hrange
  · cases hrange
  · next hin =>
    obtain rfl := Option.some.inj hrange
    have hout : OutOfRange lo hi g.dimension := inRange_eq_false_iff.mp (Bool.eq_false_iff.mpr hin)
    cases hagree with
    | same =>
      exact .range hfinite hlo hhi hout (Ordered.isNumber_of_isFinite (hfinite lo hlo.mem))
        (Ordered.isNumber_of_isFinite (hfinite hi hhi.mem))
    | range hlo' hhi' =>
      exact .range hfinite hlo hhi hout (beq_of_agree (hfinite lo hlo.mem) hlo')
        (beq_of_agree (hfinite hi hhi.mem) hhi')

/-- **What the checks of a grid find, the checks of its rows find as well.** -/
theorem CheckedAs.sameOutcome {outcome : Except (Failure Float) (CostMatrix Float)}
    (h : g.CheckedAs outcome) : g.SameOutcome outcome (CostMatrix.ofRows g.rows) := by
  cases h with
  | @accepted a hgrid =>
    subst hgrid
    rw [CostMatrix.ofRows_rows]
    exact .accepted rfl
  | @failed failure failure' hfault hagree =>
    unfold CostMatrix.gridFault? at hfault
    split at hfault
    · next hempty =>
      obtain rfl := Option.some.inj hfault
      cases hagree
      rw [ofRows_rows_of_empty hempty]
      exact .empty (by simpa [nrows] using hempty)
    · next hne =>
      split at hfault
      · next hcolumns =>
        obtain rfl := Option.some.inj hfault
        obtain ⟨i, j, v, hfirst, rfl⟩ := exists_isFirstNonFinite_of_columnwiseFault? hcolumns
        cases hagree
        obtain ⟨i', j', v', hfirst', hrows⟩ :=
          exists_ofRows_rows_eq_entry hne hfirst.exists_not_finite
        rw [hrows]
        exact .entry hfirst hfirst'
      · next hcolumns =>
        exact sameOutcome_of_rangeFault? hne (columnwiseFault?_eq_none_iff.mp hcolumns) hfault
          hagree

end Grid

/-! ## All ways agree -/

/-- A list is equal to itself when each of its items is. -/
theorem beq_self_of_forall {α : Type} [BEq α] {l : List α} (h : ∀ a ∈ l, (a == a) = true) :
    (l == l) = true := by
  induction l with
  | nil => rfl
  | cons a l ih =>
    obtain ⟨ha, hl⟩ := List.forall_mem_cons.mp h
    rw [List.cons_beq_cons, ha, ih hl]
    rfl

/-- A cost matrix is equal to itself, since its cells are numbers. -/
theorem CostMatrix.beq_self (a : CostMatrix Float) : (a == a) = true :=
  beq_self_of_forall fun row hrow => beq_self_of_forall fun v hv =>
    Ordered.isNumber_of_isFinite (a.finite row hrow v hv)

/-- The rows that a cost matrix is made of are stored column by column and read back. -/
theorem CostMatrix.exists_stored {table : RawTable Float} {a : CostMatrix Float}
    (h : ofRows table = .ok a) :
    ∃ m, Stored.ofRowOrder? table.length table.width table.flatten = some m ∧
      m.grid = a.toGrid ∧ m.toRows = table := by
  obtain ⟨m, hm, hgrid⟩ := Stored.exists_ofRowOrder? a.toGrid
  have hrows := rows_of_ofRows h
  obtain ⟨hnrows, hncols⟩ := Prod.mk.inj (shape_of_ofRows h)
  refine ⟨m, ?_, hgrid, ?_⟩
  · rw [← hnrows, ← hncols, ← hm, ← hrows]
    rfl
  · rw [← Stored.rows_grid, hgrid, hrows]

/-- **All ways to a cost matrix agree.**  Rows, untyped input, grids, stored matrices and written
    data are admitted when the tables that they stand for are admissible.  The rows of a cost
    matrix are accepted as that matrix, and the rows that one is made of are stored column by
    column and read back.  A grid and its rows have the same outcome, also when the grid is
    checked as it is stored. -/
theorem constructors_agree :
    CostMatrix.Admits (fun table => (CostMatrix.ofRows table).toOption) Eq ∧
    CostMatrix.Admits (fun j => (CostMatrix.ofJson j).toOption) (Json.Holds Json.cell?) ∧
    CostMatrix.Admits (fun g => (CostMatrix.ofGrid g).toOption) (fun g table => g.rows = table) ∧
    CostMatrix.Admits (fun m => (CostMatrix.ofStored m).toOption)
      (fun m table => m.toRows = table) ∧
    CostMatrix.Admits CostMatrix.ofJson? (Json.Holds Json.number?) ∧
    (∀ a : CostMatrix Float, CostMatrix.ofRows a.rows = .ok a ∧ (a == a) = true) ∧
    (∀ (table : RawTable Float) (a : CostMatrix Float), CostMatrix.ofRows table = .ok a →
      ∃ m, Stored.ofRowOrder? table.length table.width table.flatten = some m ∧
        m.grid = a.toGrid ∧ m.toRows = table) ∧
    (∀ g : Grid Float, g.SameOutcome (CostMatrix.ofGrid g) (CostMatrix.ofRows g.rows)) ∧
    ∀ m : Stored Float,
      m.grid.SameOutcome (CostMatrix.ofStored m) (CostMatrix.ofRows m.toRows) := by
  have hgrid : ∀ g : Grid Float, g.SameOutcome (CostMatrix.ofGrid g) (CostMatrix.ofRows g.rows) :=
    fun g => g.checkedAs_ofGrid.sameOutcome
  have hstored : ∀ m : Stored Float,
      m.grid.SameOutcome (CostMatrix.ofStored m) (CostMatrix.ofRows m.toRows) :=
    fun m => m.checkedAs_ofStored.sameOutcome
  refine ⟨.of_ofRows ?_, .of_ofRows ?_, .of_ofRows ?_, .of_ofRows ?_,
    .of_ofRows fun j a => Json.ofJson?_eq_some_iff, fun a => ⟨a.ofRows_rows, a.beq_self⟩,
    fun table a => CostMatrix.exists_stored, hgrid, hstored⟩
  · intro table a
    simp [CostMatrix.toOption_eq_some_iff]
  · intro j a
    rw [CostMatrix.toOption_eq_some_iff, Json.ofJson_eq_ok_iff]
  · intro g a
    simp [CostMatrix.toOption_eq_some_iff, (hgrid g).eq_ok_iff]
  · intro m a
    simp [CostMatrix.toOption_eq_some_iff, (hstored m).eq_ok_iff]

/-- Two rows of three values: a table that is accepted, a matrix whose first bad cell is another
    one in each order, and one with two zeros that is out of range. -/
theorem constructors_agree_wide :
    let table : RawTable Float := [[4, 2, -1], [0, 5, 3]]
    let bad : Stored Float := ⟨2, 3, [1, 1 / 0, 2, 3, 0 / 0, 5], rfl⟩
    let far : Stored Float := ⟨2, 3, [1e308, -0.0, 0, 1, 2, 3], rfl⟩
    (∃ a, CostMatrix.ofRows table = .ok a ∧ CostMatrix.ofRows a.rows = .ok a ∧
      ∃ m, Stored.ofRowOrder? 2 3 table.flatten = some m ∧ m.toRows = table) ∧
    bad.grid.SameOutcome (CostMatrix.ofStored bad) (CostMatrix.ofRows bad.toRows) ∧
    bad.fault? = some (.nonNumericEntry 1 0 "inf") ∧
    RawTable.fault? bad.toRows = some (.nonNumericEntry 0 2 "NaN") ∧
    far.grid.SameOutcome (CostMatrix.ofStored far) (CostMatrix.ofRows far.toRows) ∧
    far.fault? = some (.valueRangeOverflow (some (-0.0, 1e308))) ∧
    RawTable.fault? far.toRows = some (.valueRangeOverflow (some (0, 1e308))) := by
  intro table bad far
  obtain ⟨_, _, _, _, _, hback, hkept, _, hsame⟩ := constructors_agree
  refine ⟨?_, hsame bad, by decide +kernel, by decide +kernel, hsame far, by decide +kernel,
    by decide +kernel⟩
  have hfault : RawTable.fault? table = none := by decide +kernel
  obtain ⟨a, ha⟩ := CostMatrix.exists_ofRows_eq_ok hfault
  obtain ⟨m, hm, _, hrows⟩ := hkept table a ha
  exact ⟨a, ha, (hback a).1, m, hm, hrows⟩

end LinearAssignment
