import Mathlib.Algebra.Order.Ring.Rat
import LinearAssignment.Proofs.DualAccounting
import LinearAssignment.Proofs.Recording

/-! # Runs on scaled matrices

    Multiplying every cell by one positive factor changes neither where the zeros are nor
    which of two values is smaller.  The loop on the scaled matrix therefore finds the same
    matchings and the same lines, and every value it computes is the other one scaled.  Dummy
    cells are zero on both sides, and a reduction that is skipped because the smallest value is
    zero is skipped on both sides.

    * `Grid.scale`: every value multiplied by one factor.
    * `Grid.IsRound.scale`, `Grid.inStep_scale`: one round, then the loop.
    * `Run.scaled_ofSource`: whole runs. -/

namespace LinearAssignment

namespace Grid

/-! ## One rule for all values -/

section Map

variable {K L : Type} (g : Grid K) (f : K → L)

@[simp] theorem ncols_map : (g.map f).ncols = g.ncols := rfl

@[simp] theorem nrows_map : (g.map f).nrows = g.nrows := nrows_mapIdx ..

@[simp] theorem cell?_map (i j : Nat) : (g.map f).cell? i j = (g.cell? i j).map f :=
  cell?_mapIdx ..

theorem rows_map : (g.map f).rows = g.rows.map (List.map f) := by
  have hrow : ∀ row : List K, row.mapIdx (fun _ => f) = row.map f := fun row =>
    List.ext_getElem? fun j => by rw [List.getElem?_mapIdx, List.getElem?_map]
  refine List.ext_getElem? fun i => ?_
  rw [map, mapIdx, List.getElem?_mapIdx, List.getElem?_map]
  simp only [hrow]

theorem cells_map : (g.map f).cells = g.cells.map f := by
  rw [cells, rows_map, cells, List.map_flatten]

theorem column_map (j : Nat) : (g.map f).column j = (g.column j).map f := by
  rw [column, rows_map, column, List.filterMap_map, List.map_filterMap]
  exact List.filterMap_congr fun row _ => List.getElem?_map ..

end Map

/-- The smallest values of the rows are carried along. -/
theorem rowMinima_map {f : Rat → Rat} (hf : StrictMono f) (g : Grid Rat) :
    (g.map f).rowMinima = g.rowMinima.map (Option.map f) := by
  rw [rowMinima, rows_map, rowMinima, List.map_map, List.map_map]
  exact List.map_congr_left fun row _ => Scalar.least?_map hf row

/-- And those of the columns. -/
theorem columnMinima_map {f : Rat → Rat} (hf : StrictMono f) (g : Grid Rat) :
    (g.map f).columnMinima = g.columnMinima.map (Option.map f) := by
  rw [columnMinima, columns, columnMinima, columns, List.map_map, List.map_map, List.map_map]
  refine List.map_congr_left fun j _ => ?_
  show Scalar.least? ((g.map f).column j) = (Scalar.least? (g.column j)).map f
  rw [column_map, Scalar.least?_map hf]

theorem greatest?_map {f : Rat → Rat} (hf : StrictMono f) (g : Grid Rat) :
    (g.map f).greatest? = g.greatest?.map f := by
  rw [Grid.greatest?, cells_map, Scalar.greatest?_map hf, Grid.greatest?]

/-! ## Scaling -/

/-- The grid with every value multiplied by `k`. -/
def scale (k : Rat) (g : Grid Rat) : Grid Rat := g.map (k * ·)

variable {k : Rat} {g : Grid Rat}

@[simp] theorem ncols_scale (k : Rat) (g : Grid Rat) : (g.scale k).ncols = g.ncols := rfl

@[simp] theorem nrows_scale (k : Rat) (g : Grid Rat) : (g.scale k).nrows = g.nrows :=
  nrows_map ..

@[simp] theorem dimension_scale (k : Rat) (g : Grid Rat) :
    (g.scale k).dimension = g.dimension := by
  rw [dimension, nrows_scale, ncols_scale, dimension]

theorem cell?_scale (k : Rat) (g : Grid Rat) (i j : Nat) :
    (g.scale k).cell? i j = (g.cell? i j).map (k * ·) :=
  cell?_map ..

/-- A grid of the same shape whose cells are scaled is the grid scaled. -/
theorem eq_scale {h : Grid Rat} (hrows : h.nrows = g.nrows) (hcols : h.ncols = g.ncols)
    (hcell : ∀ i j, h.cell? i j = (g.cell? i j).map (k * ·)) : h = g.scale k := by
  refine ext_cell? hcols (hrows.trans (nrows_scale k g).symm) fun i j => ?_
  rw [hcell, cell?_scale]

/-- Changing scaled values by one rule is scaling the values changed by another. -/
theorem mapIdx_scale {f f' : Nat → Nat → Rat → Rat} (hf : ∀ i j v, f' i j (k * v) = k * f i j v) :
    (g.scale k).mapIdx f' = (g.mapIdx f).scale k := by
  refine eq_scale ?_ rfl fun i j => ?_
  · rw [nrows_mapIdx, nrows_mapIdx, nrows_scale]
  · rw [cell?_mapIdx, cell?_mapIdx, cell?_scale, Option.map_map, Option.map_map]
    exact congrArg (Option.map · _) (funext (hf i j))

/-- Dividing by the factor undoes the scaling. -/
theorem scale_inv_scale (hk : k ≠ 0) (g : Grid Rat) : (g.scale k).scale k⁻¹ = g := by
  refine (eq_scale (nrows_scale k g).symm rfl fun i j => ?_).symm
  rw [cell?_scale, Option.map_map]
  have hid : ((k⁻¹ * ·) ∘ (k * ·) : Rat → Rat) = id := funext fun v => inv_mul_cancel_left₀ hk v
  rw [hid, Option.map_id_fun, id_eq]

/-! ## Stages -/

theorem strictMono_mul (hk : 0 < k) : StrictMono (k * · : Rat → Rat) := fun _ _ h =>
  mul_lt_mul_of_pos_left h hk

theorem isZero_mul (hk : 0 < k) (v : Rat) : Scalar.isZero (k * v) = Scalar.isZero v := by
  rw [Bool.eq_iff_iff, Scalar.isZero_rat, Scalar.isZero_rat, mul_eq_zero, or_iff_right hk.ne']

theorem zeroPattern_scale (hk : 0 < k) (g : Grid Rat) :
    (g.scale k).zeroPattern = g.zeroPattern := by
  have hrow : ∀ (row : List Rat) (start : Nat),
      zeroPlaces start (row.map (k * ·)) = zeroPlaces start row := by
    -- Places are counted from `start`, which moves along the row.
    intro row
    induction row with
    | nil => exact fun _ => rfl
    | cons v vs ih =>
      intro start
      rw [List.map_cons, zeroPlaces, zeroPlaces, isZero_mul hk, ih]
  have hzeros : (g.scale k).rows.map (zeroPlaces 0) = g.rows.map (zeroPlaces 0) := by
    rw [scale, rows_map, List.map_map]
    exact List.map_congr_left fun row _ => hrow row 0
  unfold zeroPattern
  simp only [hzeros, ncols_scale]

theorem complement_scale (hk : 0 < k) (g : Grid Rat) :
    (g.scale k).complement = g.complement.scale k := by
  unfold complement
  rw [scale, greatest?_map (strictMono_mul hk)]
  cases g.greatest? with
  | none => rfl
  | some top => exact mapIdx_scale fun _ _ v => (mul_sub k top v).symm

theorem costs_scale (hk : 0 < k) (o : Objective) (g : Grid Rat) :
    o.costs (g.scale k) = (o.costs g).scale k := by
  cases o with
  | minimize => rfl
  | maximize => exact complement_scale hk g

/-- Dummy cells are zero whatever the scale. -/
theorem balanced_scale (k : Rat) (g : Grid Rat) : (g.scale k).balanced = g.balanced.scale k := by
  refine eq_scale ?_ ?_ fun i j => ?_
  · rw [nrows_balanced, nrows_balanced, dimension_scale]
  · rw [ncols_balanced, ncols_balanced, dimension_scale]
  · have hsquare : (g.scale k).isSquare = g.isSquare := by
      rw [isSquare, nrows_scale, ncols_scale, isSquare]
    unfold balanced
    rw [hsquare, dimension_scale]
    split
    · exact cell?_scale k g i j
    · rw [cell?_padTo, cell?_padTo, cell?_scale]
      split
      · -- A cell that is added is zero, and scaling keeps it.
        cases g.cell? i j with
        | none => simp
        | some v => rfl
      · rfl

theorem lowerBy_mul (k : Rat) (smallest : Option Rat) (v : Rat) :
    lowerBy (smallest.map (k * ·)) (k * v) = k * lowerBy smallest v := by
  cases smallest with
  | none => rfl
  | some d => rw [Option.map_some, lowerBy_rat, lowerBy_rat, mul_sub]

theorem reduceRows_scale (hk : 0 < k) (g : Grid Rat) :
    (g.scale k).reduceRows = g.reduceRows.scale k := by
  refine mapIdx_scale fun i j v => ?_
  rw [scale, rowMinima_map (strictMono_mul hk), List.getElem?_map, ← lowerBy_mul]
  cases g.rowMinima[i]? <;> rfl

theorem reduceColumns_scale (hk : 0 < k) (g : Grid Rat) :
    (g.scale k).reduceColumns = g.reduceColumns.scale k := by
  refine mapIdx_scale fun i j v => ?_
  rw [scale, columnMinima_map (strictMono_mul hk), List.getElem?_map, ← lowerBy_mul]
  cases g.columnMinima[j]? <;> rfl

theorem adjustBy_scale (k : Rat) (g : Grid Rat) (lines : LineCover) (d : Rat) :
    (g.scale k).adjustBy lines (k * d) = (g.adjustBy lines d).scale k := by
  refine mapIdx_scale fun i j v => ?_
  split
  · exact (mul_sub k v d).symm
  · split
    · exact (mul_add k v d).symm
    · rfl

/-- The values on no line are scaled, in their order. -/
theorem uncovered_scale (k : Rat) (g : Grid Rat) (lines : LineCover) :
    (g.scale k).uncovered lines = (g.uncovered lines).map (k * ·) := by
  have hmarked : ((g.scale k).mapIdx fun i j v => if lines.isUncovered i j then some v else none) =
      (g.mapIdx fun i j v => if lines.isUncovered i j then some v else none).map
        (Option.map (k * ·)) := by
    refine ext_cell? rfl ?_ fun i j => ?_
    · rw [nrows_mapIdx, nrows_scale, nrows_map, nrows_mapIdx]
    · rw [cell?_mapIdx, cell?_scale, cell?_map, cell?_mapIdx, Option.map_map, Option.map_map]
      refine congrArg (Option.map · _) (funext fun v => ?_)
      simp only [Function.comp_apply]
      split <;> rfl
  rw [uncovered, hmarked, cells_map, uncovered, List.filterMap_map, List.map_filterMap]
  rfl

theorem minUncovered_scale (hk : 0 < k) {lines : LineCover} {d : Rat}
    (h : g.minUncovered lines = .ok d) : (g.scale k).minUncovered lines = .ok (k * d) := by
  obtain ⟨hleast, hpos, hfinite⟩ := minUncovered_eq_ok_iff.mp h
  refine minUncovered_eq_ok_iff.mpr ⟨?_, mul_pos hk hpos, hfinite⟩
  rw [uncovered_scale, Scalar.least?_map (strictMono_mul hk), hleast, Option.map_some]

end Grid

/-! ## Rounds -/

/-- The round that scaling the matrix leads to: the same matching and the same lines, the value
    and the matrix scaled. -/
def Round.scale (k : Rat) (r : Round Rat) : Round Rat :=
  ⟨r.matching, r.lines, k * r.value, r.matrix.scale k⟩

namespace Grid

variable {k : Rat} {g : Grid Rat}

theorem IsRound.scale (hk : 0 < k) {r : Round Rat} (hr : g.IsRound r) :
    (g.scale k).IsRound (r.scale k) where
  matching := by
    rw [zeroPattern_scale hk]
    exact hr.matching
  incomplete := hr.incomplete
  lines := by
    rw [zeroPattern_scale hk]
    exact hr.lines
  size := hr.size
  value := minUncovered_scale hk hr.value
  matrix := by
    show r.matrix.scale k = _
    rw [hr.matrix]
    exact (adjustBy_scale k g r.lines r.value).symm

/-- **The loops on a matrix and on the matrix scaled keep in step.** -/
theorem inStep_scale (hk : 0 < k) :
    InStep (fun g h : Grid Rat => h = g.scale k) (fun r s => s = r.scale k) where
  forth := by
    rintro g _ rfl r hr
    exact ⟨r.scale k, hr.scale hk, rfl, rfl⟩
  back := by
    rintro g _ rfl s hs
    -- Dividing by the factor makes a round of the other one.
    have hback := hs.scale (inv_pos.mpr hk)
    rw [scale_inv_scale hk.ne'] at hback
    exact ⟨s.scale k⁻¹, hback⟩

end Grid

/-! ## Traces -/

/-- A snapshot and the same one of the scaled run.  Labels are the same, but for the one that
    tells the value of an adjustment: there the value is scaled. -/
structure Step.Scaled (k : Rat) (step step' : Step Rat) : Prop where
  label : step'.label = step.label ∨
    ∃ d, step.label = adjustmentLabel d ∧ step'.label = adjustmentLabel (k * d)
  matrix : step'.matrix = step.matrix.map (List.map (k * ·))

theorem Grid.step_scaled (k : Rat) (label : String) (g : Grid Rat) :
    Step.Scaled k (.ofGrid label g) (.ofGrid label (g.scale k)) :=
  ⟨.inl rfl, g.rows_map _⟩

theorem Round.step_scaled (k : Rat) (r : Round Rat) :
    Step.Scaled k (.ofGrid (adjustmentLabel r.value) r.matrix)
      (.ofGrid (adjustmentLabel (r.scale k).value) (r.scale k).matrix) :=
  ⟨.inr ⟨r.value, rfl, rfl⟩, r.matrix.rows_map _⟩

/-! ## Runs -/

namespace Run

/-- The second run goes through the matrices of the first one scaled, and the loops end alike. -/
structure Scaled (k : Rat) (r s : Run Rat) : Prop where
  config_eq : s.config = r.config
  source_eq : s.source.toGrid = r.source.toGrid.scale k
  costs_eq : s.costs = r.costs.scale k
  balanced_eq : s.balanced = r.balanced.scale k
  rowReduced_eq : s.rowReduced = r.rowReduced.scale k
  reduced_eq : s.reduced = r.reduced.scale k
  rounds_eq : s.descent.rounds = r.descent.rounds.map (Round.scale k)
  complete : ∀ μ, r.descent.ending = .complete μ → s.descent.ending = .complete μ

variable {k : Rat} {r s : Run Rat}

/-- **A run on a scaled matrix goes through scaled matrices.** -/
theorem scaled_ofSource (hk : 0 < k) (c : Config) {a b : CostMatrix Rat}
    (hb : b.toGrid = a.toGrid.scale k) : Scaled k (ofSource c a) (ofSource c b) := by
  have hcosts : (ofSource c b).costs = (ofSource c a).costs.scale k := by
    show c.objective.costs b.toGrid = _
    rw [hb, Grid.costs_scale hk]
    rfl
  have hbalanced : (ofSource c b).balanced = (ofSource c a).balanced.scale k := by
    show (ofSource c b).costs.balanced = _
    rw [hcosts, Grid.balanced_scale]
    rfl
  have hrow : (ofSource c b).rowReduced = (ofSource c a).rowReduced.scale k := by
    show (ofSource c b).balanced.reduceRows = _
    rw [hbalanced, Grid.reduceRows_scale hk]
    rfl
  have hreduced : (ofSource c b).reduced = (ofSource c a).reduced.scale k := by
    show (ofSource c b).rowReduced.reduceColumns = _
    rw [hrow, Grid.reduceColumns_scale hk]
    rfl
  -- The loop has the same budget, since the shapes are the same.
  have hdescent : (ofSource c b).descent =
      ((ofSource c a).reduced.scale k).descend (roundBudget (ofSource c a).reduced.nrows) := by
    show (ofSource c b).reduced.descend (roundBudget (ofSource c b).reduced.nrows) = _
    rw [hreduced, Grid.nrows_scale]
  have hstep := Grid.inStep_scale hk
  refine ⟨rfl, hb, hcosts, hbalanced, hrow, hreduced, ?_, fun μ hμ => ?_⟩
  · have hrounds := hstep.rounds_descend (roundBudget (ofSource c a).reduced.nrows)
      (g := (ofSource c a).reduced) rfl
    rw [hdescent, ← List.forall₂_eq_eq_eq, List.forall₂_map_right_iff]
    exact hrounds.flip
  · rw [hdescent]
    refine hstep.complete_descend ?_ _ (g := (ofSource c a).reduced) rfl hμ
    rintro g _ rfl
    exact Grid.zeroPattern_scale hk g

theorem Scaled.padding_eq (h : Scaled k r s) : s.padding = r.padding := by
  rw [padding, padding, h.source_eq, Grid.padding, Grid.nrows_scale, Grid.ncols_scale,
    Grid.padding]

/-- **Every snapshot of the second run is that of the first one scaled.** -/
theorem Scaled.steps (h : Scaled k r s) : List.Forall₂ (Step.Scaled k) r.steps s.steps := by
  have hinput : List.Forall₂ (Step.Scaled k) [.ofGrid "Input matrix" r.source.toGrid]
      [.ofGrid "Input matrix" s.source.toGrid] := by
    rw [h.source_eq]
    exact .cons (Grid.step_scaled k _ _) .nil
  have hconversion : List.Forall₂ (Step.Scaled k)
      (if r.config.objective.isMaximize then
        [Step.ofGrid "Convert maximization to minimization" r.costs] else [])
      (if s.config.objective.isMaximize then
        [Step.ofGrid "Convert maximization to minimization" s.costs] else []) := by
    rw [h.config_eq, h.costs_eq]
    split
    · exact .cons (Grid.step_scaled k _ _) .nil
    · exact .nil
  have hsquaring : List.Forall₂ (Step.Scaled k)
      (r.padding.label?.map fun label => Step.ofGrid label r.balanced).toList
      (s.padding.label?.map fun label => Step.ofGrid label s.balanced).toList := by
    rw [h.padding_eq, h.balanced_eq]
    cases r.padding.label? with
    | none => exact .nil
    | some label => exact .cons (Grid.step_scaled k label _) .nil
  have hreduction : List.Forall₂ (Step.Scaled k)
      [.ofGrid "Row reduction" r.rowReduced, .ofGrid "Column reduction" r.reduced]
      [.ofGrid "Row reduction" s.rowReduced, .ofGrid "Column reduction" s.reduced] := by
    rw [h.rowReduced_eq, h.reduced_eq]
    exact .cons (Grid.step_scaled k _ _) (.cons (Grid.step_scaled k _ _) .nil)
  have hloop : List.Forall₂ (Step.Scaled k) r.descent.steps s.descent.steps := by
    unfold Descent.steps
    rw [h.rounds_eq, List.map_map, List.forall₂_map_left_iff, List.forall₂_map_right_iff]
    exact List.forall₂_same.mpr fun round _ => round.step_scaled k
  -- These parts stand one behind the other.
  exact List.rel_append (List.rel_append (List.rel_append (List.rel_append hinput hconversion)
    hsquaring) hreduction) hloop

theorem Scaled.trace (h : Scaled k r s) : List.Forall₂ (Step.Scaled k) r.trace s.trace := by
  unfold Run.trace
  rw [h.config_eq]
  split
  · exact h.steps
  · exact List.forall₂_take 1 h.steps

/-- The same matching stands for the same pairs. -/
theorem Scaled.realPairs_eq (h : Scaled k r s) (μ : Matching) :
    s.realPairs μ = r.realPairs μ := by
  rw [realPairs, realPairs, h.source_eq, Grid.nrows_scale, Grid.ncols_scale]

theorem Scaled.costOf_eq (h : Scaled k r s) (pairs : List Pair) :
    s.costOf pairs = k * r.costOf pairs := by
  have hcells : (pairs.filterMap fun p => s.source.cell? p.row p.col) =
      (pairs.filterMap fun p => r.source.cell? p.row p.col).map (k * ·) := by
    rw [List.map_filterMap, h.source_eq]
    exact List.filterMap_congr fun p _ => Grid.cell?_scale k _ p.row p.col
  rw [costOf, hcells, costOf, Scalar.total_rat, Scalar.total_rat, List.sum_map_mul_left,
    List.map_id']

end Run

end LinearAssignment
