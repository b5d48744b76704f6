import LinearAssignment.Proofs.FloatAgreement
import LinearAssignment.Proofs.Validation
import LinearAssignment.Solver

/-! # Typed and untyped input

    Untyped input is checked as a table of cells, and the table of its numbers is checked once
    more on the way to a cost matrix.  The second check repeats the first one and adds the
    range, so untyped input is answered as the table of its numbers is, whatever is wrong with
    it.

    * `RawTable.Reads.ofJson_eq`: cells are validated as their values are.
    * `CostMatrix.agree_ofRows`, `Solver.agree_solve`: tables that agree as numbers have
      outcomes that agree.
    * `Json.Spells`: what makes a cell stand for a number.
    * `entry_points_agree`: the two entry points, and the way back from an answer. -/

namespace LinearAssignment

open Scalar

/-! ## Cells and their values -/

/-- The values that are read are finite. -/
theorem RawTable.Reads.isFinite {cells : RawTable Json} {values : RawTable Float}
    (h : cells.Reads Json.finiteCell? values) :
    ∀ row ∈ values, ∀ v ∈ row, Scalar.isFinite v = true := by
  intro row hrow v hv
  obtain ⟨cell, hcell⟩ := h.exists_cell (List.mem_flatten.mpr ⟨row, hrow, hv⟩)
  exact Json.isFinite_of_finiteCell? hcell

/-- Numbers that are read and are finite are read as finite ones. -/
theorem RawTable.Reads.finiteCell? {cells : RawTable Json} {values : RawTable Float}
    (h : cells.Reads Json.cell? values)
    (hfinite : ∀ row ∈ values, ∀ v ∈ row, Scalar.isFinite v = true) :
    cells.Reads Json.finiteCell? values := by
  calc cells.map (·.map Json.finiteCell?)
      = (cells.map (·.map Json.cell?)).map (·.map (Option.filter Scalar.isFinite)) := by
        simp only [List.map_map, Function.comp_def]
        rfl
    _ = (values.map (·.map some)).map (·.map (Option.filter Scalar.isFinite)) := by rw [h]
    _ = values.map (·.map some) := by
        rw [List.map_map]
        refine List.map_congr_left fun row hrow => ?_
        rw [Function.comp_apply, List.map_map]
        exact List.map_congr_left fun v hv => if_pos (hfinite row hrow v hv)

/-- **Cells that all have finite values are validated as the table of these values.** -/
theorem RawTable.Reads.ofJson_eq {cells : RawTable Json} {values : RawTable Float}
    (h : cells.Reads Json.finiteCell? values) :
    CostMatrix.ofJson (.arr (cells.map .arr)) = CostMatrix.ofRows values := by
  have hvalues : ∀ row ∈ values, ∀ v ∈ row, ∃ w, finite? v = some w :=
    fun row hrow v hv => ⟨v, if_pos (h.isFinite row hrow v hv)⟩
  -- Every cell and every value is read, so both checks see the lengths of the rows alone.
  have hfirst : cells.firstFault? Json.finiteCell? Json.canonical =
      values.firstFault? finite? Scalar.text :=
    firstFault?_congr h.lengths_eq.symm h.exists_value hvalues
  have hnumbers : Json.numbers cells = values := (reads_filterMap h.exists_value).unique h
  rw [Json.ofJson_arr, hfirst, hnumbers]
  cases hfault : values.firstFault? finite? Scalar.text with
  | none => rfl
  | some failure =>
    symm
    rw [CostMatrix.ofRows_eq_error_iff, RawTable.fault?_eq, hfault, Option.some_or]

/-! ## Tables that agree -/

section Agree

variable {K : Type} [Scalar K]

theorem Solver.solve_of_exceeded (s : Solver) {table : RawTable K} {a : CostMatrix K}
    (ha : CostMatrix.ofRows table = .ok a) {limit : Nat} (h : s.exceededLimit? a = some limit) :
    s.solve table = .error (.matrixTooLarge a.dimension limit) := by
  rw [solve, ha, answerValidated, answer, h]

variable [Numeric K]

/-- The range checks of lists that agree. -/
theorem agree_rangeFault? {values values' : List K} (h : List.Forall₂ Agree values values')
    (dim : Nat) :
    Option.Rel Failure.Agree (rangeFault? values dim) (rangeFault? values' dim) := by
  have hleast := agree_least? h
  have hgreatest := agree_greatest? h
  unfold rangeFault? extremes?
  generalize least? values = lo, least? values' = lo' at hleast
  generalize greatest? values = hi, greatest? values' = hi' at hgreatest
  cases hleast with
  | none => exact .some (.same _)
  | some hlo =>
    cases hgreatest with
    | none => exact .some (.same _)
    | some hhi =>
      simp only [Option.bind_some, Option.map_some, ← Numeric.inRange_congr dim hlo hhi]
      split
      · exact .none
      · exact .some (.range hlo hhi)

/-- **Finite tables that agree are refused with failures that agree, or accepted as matrices
    that agree.** -/
theorem CostMatrix.agree_ofRows {table table' : RawTable K}
    (h : List.Forall₂ (List.Forall₂ Agree) table table')
    (hfinite : ∀ row ∈ table, ∀ v ∈ row, isFinite v = true)
    (hfinite' : ∀ row ∈ table', ∀ v ∈ row, isFinite v = true) :
    (∃ failure failure', ofRows table = .error failure ∧ ofRows table' = .error failure' ∧
      failure.Agree failure') ∨
    ∃ a a', ofRows table = .ok a ∧ ofRows table' = .ok a' ∧ a.toGrid.Agree a'.toGrid := by
  have hlengths : table.map List.length = table'.map List.length :=
    RawTable.map_eq_map_iff_forall₂.mpr (h.imp fun _ _ hrow => hrow.length_eq)
  have hwidth : table.width = table'.width := RawTable.width_congr hlengths
  have hfirst : table.firstFault? finite? Scalar.text =
      table'.firstFault? finite? Scalar.text :=
    RawTable.firstFault?_congr hlengths (fun row hrow v hv => ⟨v, if_pos (hfinite row hrow v hv)⟩)
      fun row hrow v hv => ⟨v, if_pos (hfinite' row hrow v hv)⟩
  have hrange := agree_rangeFault? (List.rel_flatten h) (max table.length table.width)
  -- Failures of the shape are the same; those of the range carry bounds that agree.
  have hfault : Option.Rel Failure.Agree table.fault? table'.fault? := by
    rw [RawTable.fault?_eq, RawTable.fault?_eq, ← hfirst, ← h.length_eq, ← hwidth]
    cases table.firstFault? finite? Scalar.text with
    | none => exact hrange
    | some failure => exact .some (.same failure)
  cases hf : table.fault? with
  | some failure =>
    rw [hf] at hfault
    cases hf' : table'.fault? with
    | none =>
      rw [hf'] at hfault
      cases hfault
    | some failure' =>
      rw [hf'] at hfault
      obtain ⟨hagree⟩ := hfault
      exact .inl ⟨failure, failure', ofRows_eq_error_iff.mpr hf, ofRows_eq_error_iff.mpr hf',
        hagree⟩
  | none =>
    rw [hf] at hfault
    cases hf' : table'.fault? with
    | some failure' =>
      rw [hf'] at hfault
      cases hfault
    | none =>
      obtain ⟨a, ha⟩ := exists_ofRows_eq_ok hf
      obtain ⟨a', ha'⟩ := exists_ofRows_eq_ok hf'
      refine .inr ⟨a, a', ha, ha', ?_, ?_⟩
      · have hcols := (Prod.mk.inj (shape_of_ofRows ha)).2
        have hcols' := (Prod.mk.inj (shape_of_ofRows ha')).2
        rw [hcols, hcols', hwidth]
      · rw [rows_of_ofRows ha, rows_of_ofRows ha']
        exact h

/-- **Finite tables that agree have outcomes that agree.** -/
theorem Solver.agree_solve (s : Solver) {table table' : RawTable K}
    (h : List.Forall₂ (List.Forall₂ Agree) table table')
    (hfinite : ∀ row ∈ table, ∀ v ∈ row, isFinite v = true)
    (hfinite' : ∀ row ∈ table', ∀ v ∈ row, isFinite v = true) :
    OutcomesAgree (s.solve table) (s.solve table') := by
  rcases CostMatrix.agree_ofRows h hfinite hfinite' with
    ⟨failure, failure', hf, hf', hagree⟩ | ⟨a, a', ha, ha', hagree⟩
  · rw [solve, solve, hf, hf']
    exact .failed hagree
  · have hlimit : s.exceededLimit? a = s.exceededLimit? a' := by
      rw [exceededLimit?, exceededLimit?, hagree.dimension_eq]
    cases hexceeded : s.exceededLimit? a' with
    | some limit =>
      rw [s.solve_of_exceeded ha (hlimit.trans hexceeded), s.solve_of_exceeded ha' hexceeded,
        hagree.dimension_eq]
      exact .failed (.same _)
    | none =>
      rw [s.solve_of_ofRows ha (hlimit.trans hexceeded), s.solve_of_ofRows ha' hexceeded]
      exact Run.agree_outcome s.config hagree

end Agree

/-! ## Cells that stand for numbers -/

/-- A number is read as it is. -/
theorem Json.cell?_eq_some_of_number? {cell : Json} {x : Float} (h : cell.number? = some x) :
    cell.cell? = some x := by
  cases cell with
  | str t => cases h
  | _ => exact h

/-- The cell is a number equal to `v`, or a text that spells one, blank characters at its ends
    aside. -/
inductive Json.Spells : Json → Float → Prop where
  | number {cell : Json} {x v : Float} : cell.number? = some x → (x == v) = true → Spells cell v
  | text {t : String} {x v : Float} : Decimal.read? (Text.trim t) = some x → (x == v) = true →
      Spells (.str t) v

theorem Json.Spells.exists_cell? {cell : Json} {v : Float} (h : cell.Spells v) :
    ∃ x, cell.cell? = some x ∧ Agree x v := by
  cases h with
  | number hx heq => exact ⟨_, cell?_eq_some_of_number? hx, .inl heq⟩
  | text hx heq => exact ⟨_, hx, .inl heq⟩

/-- A choice made for each pair of two lists in step. -/
theorem exists_map_eq_map {α β γ δ : Type} {R : α → β → Prop} {S : γ → β → Prop} {f : α → δ}
    {g : γ → δ} {l : List α} {l' : List β} (h : List.Forall₂ R l l')
    (hpair : ∀ a, ∀ b ∈ l', R a b → ∃ c, f a = g c ∧ S c b) :
    ∃ cs, l.map f = cs.map g ∧ List.Forall₂ S cs l' := by
  induction h with
  | nil => exact ⟨[], rfl, .nil⟩
  | @cons a b l l' hab _ ih =>
    obtain ⟨c, hc, hcb⟩ := hpair a b List.mem_cons_self hab
    obtain ⟨cs, hcs, hall⟩ := ih fun a b hb => hpair a b (List.mem_cons_of_mem _ hb)
    exact ⟨c :: cs, by rw [List.map_cons, List.map_cons, hc, hcs], .cons hcb hall⟩

/-- Cells that stand for finite numbers have values, and these agree with the numbers. -/
theorem exists_reads_of_spells {cells : RawTable Json} {table : RawTable Float}
    (hfinite : ∀ row ∈ table, ∀ v ∈ row, isFinite v = true)
    (h : List.Forall₂ (List.Forall₂ Json.Spells) cells table) :
    ∃ values : RawTable Float, cells.Reads Json.finiteCell? values ∧
      List.Forall₂ (List.Forall₂ Agree) values table := by
  refine exists_map_eq_map h fun row vs hvs hrow => ?_
  refine exists_map_eq_map hrow fun cell v hv hspells => ?_
  obtain ⟨x, hx, hagree⟩ := hspells.exists_cell?
  have hxfinite : isFinite x = true :=
    (Numeric.isFinite_congr hagree).trans (hfinite vs hvs v hv)
  exact ⟨x, Option.filter_eq_some_iff.mpr ⟨hx, hxfinite⟩, hagree⟩

/-- What is answered was read as a table that is answered alike. -/
theorem exists_readTable_of_solveJson {s : Solver} {j : Json} {sol : Solution Float}
    (h : s.solveJson j = .ok sol) :
    ∃ grid a, j.readTable = .ok grid ∧ CostMatrix.ofRows grid = .ok a ∧
      s.solve grid = .ok sol := by
  unfold Solver.solveJson Solver.answerJson CostMatrix.ofJson at h
  cases hread : j.readTable with
  | error failure =>
    rw [hread] at h
    cases h
  | ok grid =>
    rw [hread] at h
    have hsolve : s.solve grid = .ok sol := h
    obtain ⟨a, _, ha, _⟩ := s.answerValidated_eq_ok_iff.mp hsolve
    exact ⟨grid, a, rfl, ha, hsolve⟩

/-- **Typed and untyped input are answered alike.**  Cells that stand for the numbers of a finite
    table have the outcome of the table, whatever its rows are; when they are read as the very
    numbers, it is the same outcome to the last field.  What is answered was read as a table
    that is answered the same. -/
theorem entry_points_agree (s : Solver) :
    (∀ (table : RawTable Float) (cells : RawTable Json),
      (∀ row ∈ table, ∀ v ∈ row, isFinite v = true) →
      List.Forall₂ (List.Forall₂ Json.Spells) cells table →
        OutcomesAgree (s.solveJson (.arr (cells.map .arr))) (s.solve table)) ∧
    (∀ (table : RawTable Float) (cells : RawTable Json),
      (∀ row ∈ table, ∀ v ∈ row, isFinite v = true) → cells.Reads Json.cell? table →
        s.solveJson (.arr (cells.map .arr)) = s.solve table) ∧
    ∀ (j : Json) (sol : Solution Float), s.solveJson j = .ok sol →
      ∃ grid, j.readTable = .ok grid ∧ ¬ grid.IsEmpty ∧ grid.IsRectangular ∧
        (∀ row ∈ grid, ∀ v ∈ row, isFinite v = true) ∧ s.solve grid = .ok sol := by
  refine ⟨?_, ?_, ?_⟩
  · intro table cells hfinite hspells
    obtain ⟨values, hreads, hagree⟩ := exists_reads_of_spells hfinite hspells
    rw [Solver.solveJson, Solver.answerJson, hreads.ofJson_eq]
    exact s.agree_solve hagree hreads.isFinite hfinite
  · intro table cells hfinite hreads
    rw [Solver.solveJson, Solver.answerJson, (hreads.finiteCell? hfinite).ofJson_eq]
    rfl
  · intro j sol hsol
    obtain ⟨grid, a, hread, ha, hsolve⟩ := exists_readTable_of_solveJson hsol
    obtain ⟨_, hwidth, hrect, hfinite, _⟩ :=
      CostMatrix.of_fault?_eq_none (CostMatrix.fault?_eq_none_of_ofRows ha)
    refine ⟨grid, hread, ?_, hrect, hfinite, hsolve⟩
    exact fun hempty => absurd (RawTable.width_eq_zero_iff.mpr hempty) hwidth.ne'

/-- A negative zero given as the whole number zero, and texts with blanks around numbers; the
    same numbers with a cell too many, and what is read from an answered input. -/
theorem entry_points_agree_mixed_cells :
    let s : Solver := ⟨⟨.minimize, none, true⟩, rfl⟩
    let table : RawTable Float := [[-0.0, 7.5], [2, -3]]
    let cells : RawTable Json := [[.int 0, .str " 7.5 "], [.float 2, .str "-3\u00a0"]]
    let ragged : RawTable Float := [[1, 2], [3]]
    OutcomesAgree (s.solveJson (.arr (cells.map .arr))) (s.solve table) ∧
      s.solveJson (.arr ((ragged.map (·.map Json.float)).map .arr)) = s.solve ragged ∧
      ∃ sol grid, s.solveJson (.arr (cells.map .arr)) = .ok sol ∧ s.solve grid = .ok sol := by
  intro s table cells ragged
  obtain ⟨hagree, hsame, hback⟩ := entry_points_agree s
  refine ⟨hagree table cells ?_ ?_, hsame ragged _ ?_ rfl, ?_⟩
  · intro row hrow v hv
    have hall : table.all (·.all isFinite) = true := by decide +kernel
    exact List.all_eq_true.mp (List.all_eq_true.mp hall row hrow) v hv
  · have htext : (Decimal.read? (Text.trim " 7.5 ")).map (· == (7.5 : Float)) = some true := by
      decide +kernel
    have htext' : (Decimal.read? (Text.trim "-3\u00a0")).map (· == (-3 : Float)) =
        some true := by
      decide +kernel
    obtain ⟨x, hx, hxv⟩ := Option.map_eq_some_iff.mp htext
    obtain ⟨y, hy, hyv⟩ := Option.map_eq_some_iff.mp htext'
    have hzero : (Float.ofInt 0 == -0.0) = true := by decide +kernel
    have htwo : ((2 : Float) == 2) = true := by decide +kernel
    exact .cons (.cons (.number rfl hzero) (.cons (.text hx hxv) .nil))
      (.cons (.cons (.number rfl htwo) (.cons (.text hy hyv) .nil)) .nil)
  · intro row hrow v hv
    have hall : ragged.all (·.all isFinite) = true := by decide +kernel
    exact List.all_eq_true.mp (List.all_eq_true.mp hall row hrow) v hv
  · have hsolved : (s.solveJson (.arr (cells.map .arr))).toOption.isSome = true := by
      decide +kernel
    cases hsol : s.solveJson (.arr (cells.map .arr)) with
    | error failure =>
      rw [hsol] at hsolved
      cases hsolved
    | ok sol =>
      obtain ⟨grid, _, _, _, _, hgrid⟩ := hback _ sol hsol
      exact ⟨sol, grid, rfl, hgrid⟩

end LinearAssignment
