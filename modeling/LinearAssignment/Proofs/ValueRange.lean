import LinearAssignment.Proofs.DualAccounting
import LinearAssignment.Proofs.Persistence

/-! # How large numbers get during a run

    The check on the range of the values comes before any arithmetic, so it has to bound
    whatever a run computes.  Up to row reduction cells stay as close to zero as the source
    suggests.  Column reduction brings them within the span of the source, dummy lines
    included.  From there on a cell grows by at most the sum of all values adjusted by, and
    that sum is bounded because some cell loses it all: the one that is on no line in any
    round.

    * `Grid.Bounded`: values near zero and near one another.
    * `Bounded.value_reduced_le`: what both reductions leave of them.
    * `Rounds.sum_values_le`, `Rounds.value_le`: what rounds add up to, and what they add.
    * `abs_computed_le`: bounds on all that a run computes, from the range that is tested. -/

namespace LinearAssignment

/-! ## Magnitudes of rationals -/

namespace Scalar

theorem larger_rat (a b : Rat) : larger a b = max a b := by
  unfold larger
  by_cases h : a < b
  · rw [if_pos h, max_eq_right h.le]
  · rw [if_neg h, max_eq_left (not_lt.mp h)]

theorem magnitude_rat (v : Rat) : magnitude v = |v| := by
  unfold magnitude
  by_cases h : v < 0
  · rw [if_pos h, abs_of_neg h, zero_sub]
  · rw [if_neg h, abs_of_nonneg (not_lt.mp h)]

theorem reach_rat (lo hi : Rat) : reach lo hi = max (max (hi - lo) |lo|) |hi| := by
  rw [reach, larger_rat, larger_rat, magnitude_rat, magnitude_rat]

end Scalar

/-- A sum is no further from zero than its terms can bring it. -/
theorem abs_sum_le {values : List Rat} {mag : Rat} (h : ∀ v ∈ values, |v| ≤ mag) :
    |values.sum| ≤ values.length * mag := by
  induction values with
  | nil => simp
  | cons v values ih =>
    have hv := h v List.mem_cons_self
    have hrest := ih fun w hw => h w (List.mem_cons_of_mem v hw)
    have hadd := abs_add_le v values.sum
    rw [List.sum_cons, List.length_cons, Nat.cast_add_one, add_mul, one_mul]
    linarith

namespace Grid

/-! ## Before the loop -/

/-- The values of the grid lie within `mag` of zero and within `span` of one another. -/
structure Bounded (g : Grid Rat) (span mag : Rat) : Prop where
  span_nonneg : 0 ≤ span
  span_le : span ≤ mag
  near_zero : ∀ i < g.nrows, ∀ j < g.ncols, |g.value i j| ≤ mag
  near : ∀ i < g.nrows, ∀ j < g.ncols, ∀ k < g.nrows, ∀ l < g.ncols,
    g.value i j - g.value k l ≤ span

variable {g : Grid Rat} {span mag : Rat}

theorem Bounded.mag_nonneg (h : g.Bounded span mag) : 0 ≤ mag := h.span_nonneg.trans h.span_le

/-- Dummy cells, which are zero, are as near to zero as any. -/
theorem Bounded.abs_value_le (h : g.Bounded span mag) (i j : Nat) : |g.value i j| ≤ mag := by
  by_cases hin : i < g.nrows ∧ j < g.ncols
  · exact h.near_zero i hin.1 j hin.2
  · rw [value_of_outside (by omega), abs_zero]
    exact h.mag_nonneg

/-- Two cells, dummies or not, differ by no more than values are away from zero. -/
theorem Bounded.value_sub_le (h : g.Bounded span mag) (i j k l : Nat) :
    g.value i j - g.value k l ≤ mag := by
  have hij := (abs_le.mp (h.abs_value_le i j)).2
  have hkl := (abs_le.mp (h.abs_value_le k l)).1
  by_cases hin : i < g.nrows ∧ j < g.ncols
  · by_cases hin' : k < g.nrows ∧ l < g.ncols
    · exact (h.near i hin.1 j hin.2 k hin'.1 l hin'.2).trans h.span_le
    · rwa [value_of_outside (i := k) (by omega), sub_zero]
  · rw [value_of_outside (i := i) (by omega)]
    linarith

/-- A row is lowered by one of its values, which no other is below. -/
theorem exists_row_share {i : Nat} (hi : i < g.nrows) (hn : 0 < g.ncols) :
    ∃ q < g.ncols, ∀ j < g.ncols, g.value i q ≤ g.value i j ∧
      g.reduceRows.value i j = g.value i j - g.value i q := by
  obtain ⟨d, hd, ⟨q, hq⟩, hmin⟩ := rowMinima_spec hi hn
  refine ⟨q, lt_ncols_of_cell? hq, fun j hj => ?_⟩
  obtain ⟨v, hv⟩ := g.exists_cell? hi hj
  have hcell := cell?_reduceRows_of_min hd (j := j)
  rw [hv, Option.map_some, lowerBy_rat] at hcell
  rw [value_of_cell? hq, value_of_cell? hv, value_of_cell? hcell]
  exact ⟨not_lt.mp (hmin j v hv), rfl⟩

/-- A column is lowered by one of its values, which no other is below. -/
theorem exists_column_share {j : Nat} (hj : j < g.ncols) (hm : 0 < g.nrows) :
    ∃ k < g.nrows, ∀ i < g.nrows, g.value k j ≤ g.value i j ∧
      g.reduceColumns.value i j = g.value i j - g.value k j := by
  obtain ⟨d, hd, ⟨k, hk⟩, hmin⟩ := columnMinima_spec hj hm
  refine ⟨k, lt_nrows_of_cell? hk, fun i hi => ?_⟩
  obtain ⟨v, hv⟩ := g.exists_cell? hi hj
  have hcell := cell?_reduceColumns_of_min hd (i := i)
  rw [hv, Option.map_some, lowerBy_rat] at hcell
  rw [value_of_cell? hk, value_of_cell? hv, value_of_cell? hcell]
  exact ⟨not_lt.mp (hmin i v hv), rfl⟩

/-- Row reduction leaves values between zero and `mag`. -/
theorem Bounded.value_reduceRows (h : g.Bounded span mag) {i j : Nat}
    (hi : i < g.dimension) (hj : j < g.dimension) :
    0 ≤ g.balanced.reduceRows.value i j ∧ g.balanced.reduceRows.value i j ≤ mag := by
  obtain ⟨q, _, hq⟩ := exists_row_share (g := g.balanced) (by simpa using hi)
    (by rw [ncols_balanced]; omega)
  obtain ⟨hmin, hvalue⟩ := hq j (by simpa using hj)
  rw [hvalue, value_balanced, value_balanced]
  rw [value_balanced, value_balanced] at hmin
  exact ⟨sub_nonneg.mpr hmin, h.value_sub_le i j i q⟩

/-- Without dummy columns, values of one row differ by at most the span. -/
theorem Bounded.value_sub_le_of_wide (h : g.Bounded span mag) {i j q : Nat} (hj : j < g.ncols)
    (hq : q < g.ncols) : g.value i j - g.value i q ≤ span := by
  by_cases hreal : i < g.nrows
  · exact h.near i hreal j hj i hreal q hq
  · rw [value_of_outside (i := i) (by omega), value_of_outside (i := i) (by omega), sub_zero]
    exact h.span_nonneg

/-- In two rows of the source, with `b` a lower bound of the second row at both columns, the
    drop from `j` to `q` in the first exceeds what `j` is above the bound in the second by at
    most the span.  It matters which of the two columns are dummies. -/
theorem Bounded.cross_le (h : g.Bounded span mag) {i k j q : Nat} {b : Rat} (hi : i < g.nrows)
    (hk : k < g.nrows) (hkj : b ≤ g.value k j) (hkq : b ≤ g.value k q) :
    g.value i j - g.value i q - (g.value k j - b) ≤ span := by
  have hspan := h.span_nonneg
  by_cases hrealq : q < g.ncols
  · by_cases hrealj : j < g.ncols
    · have := h.near i hi j hrealj i hi q hrealq
      linarith
    · have hzero : g.value i j = 0 := value_of_outside (by omega)
      have hzero' : g.value k j = 0 := value_of_outside (by omega)
      have := h.near k hk q hrealq i hi q hrealq
      linarith
  · have hzero : g.value i q = 0 := value_of_outside (by omega)
    have hzero' : g.value k q = 0 := value_of_outside (by omega)
    by_cases hrealj : j < g.ncols
    · have := h.near i hi j hrealj k hk j hrealj
      linarith
    · have hzeroj : g.value i j = 0 := value_of_outside (by omega)
      have hzeroj' : g.value k j = 0 := value_of_outside (by omega)
      linarith

/-- **Both reductions leave values of at most the span**, although the zeros of dummy lines may
    lie outside the range of the others. -/
theorem Bounded.value_reduced_le (h : g.Bounded span mag) {i j : Nat}
    (hi : i < g.dimension) (hj : j < g.dimension) :
    g.balanced.reduceRows.reduceColumns.value i j ≤ span := by
  have hn : 0 < g.dimension := by omega
  -- The cell loses the smallest value of its row, at `q`, and then the smallest of what its
  -- column still has, in row `k`, which has lost its own smallest value, at `q'`.
  obtain ⟨k, hk, hcol⟩ := exists_column_share (g := g.balanced.reduceRows) (j := j)
    (by simpa using hj) (by simpa using hn)
  have hk : k < g.dimension := by simpa using hk
  obtain ⟨q, hq, hrow⟩ := exists_row_share (g := g.balanced) (i := i) (by simpa using hi)
    (by simpa using hn)
  obtain ⟨q', hq', hrow'⟩ := exists_row_share (g := g.balanced) (i := k) (by simpa using hk)
    (by simpa using hn)
  rw [ncols_balanced] at hq hq' hrow hrow'
  simp only [value_balanced] at hrow hrow'
  obtain ⟨_, hij⟩ := hcol i (by simpa using hi)
  rw [hij, (hrow j hj).2, (hrow' j hj).2]
  have hkj := (hrow' j hj).1
  rcases Nat.le_total g.nrows g.ncols with hwide | htall
  · have hcols : g.dimension = g.ncols := Nat.max_eq_right hwide
    have := h.value_sub_le_of_wide (i := i) (hcols ▸ hj) (hcols ▸ hq)
    linarith
  · have hrows : g.dimension = g.nrows := Nat.max_eq_left htall
    exact h.cross_le (hrows ▸ hi) (hrows ▸ hk) hkj (hrow' q hq).1

end Grid

/-! ## The loop -/

/-- What a round does to a value. -/
theorem Grid.IsRound.value_eq {g : Grid Rat} {r : Round Rat} (hr : g.IsRound r) {i j : Nat}
    (hi : i < g.nrows) (hj : j < g.ncols) :
    r.matrix.value i j =
      if r.lines.isUncovered i j then g.value i j - r.value
      else if r.lines.isDoublyCovered i j then g.value i j + r.value
      else g.value i j := by
  obtain ⟨v, hv⟩ := g.exists_cell? hi hj
  have hcell := Grid.cell?_adjustBy g r.lines r.value i j
  rw [hv, Option.map_some, ← hr.matrix] at hcell
  rw [Grid.value_of_cell? hv, Grid.value_of_cell? hcell]

/-- A cell that is on no line in any round loses all values adjusted by. -/
theorem Rounds.value_of_spared {g last : Grid Rat} {rs : List (Round Rat)}
    (hrs : Rounds g rs last) {i j : Nat} (hi : i < g.nrows) (hj : j < g.ncols)
    (h : ∀ r ∈ rs, r.lines.isUncovered i j = true) :
    last.value i j = g.value i j - (rs.map (·.value)).sum := by
  induction hrs with
  | nil g => simp
  | @cons g last r rs hr _ ih =>
    have hshape := hr.shape
    have hrest := ih (by omega) (by omega) fun r' hr' => h r' (List.mem_cons_of_mem r hr')
    have hround := hr.value_eq hi hj
    rw [if_pos (h r List.mem_cons_self)] at hround
    rw [hrest, hround, List.map_cons, List.sum_cons]
    ring

/-- No cell gains more than all values adjusted by. -/
theorem Rounds.value_le {g last : Grid Rat} {rs : List (Round Rat)} (hrs : Rounds g rs last)
    {i j : Nat} (hi : i < g.nrows) (hj : j < g.ncols) :
    last.value i j ≤ g.value i j + (rs.map (·.value)).sum := by
  induction hrs with
  | nil g => simp
  | @cons g last r rs hr _ ih =>
    have hshape := hr.shape
    have hrest := ih (by omega) (by omega)
    have hpos := hr.lowest.pos
    have hround : r.matrix.value i j ≤ g.value i j + r.value := by
      rw [hr.value_eq hi hj]
      split
      · linarith
      · split <;> linarith
    rw [List.map_cons, List.sum_cons]
    linarith

/-- **The values adjusted by add up to no more than the largest value of the first matrix.** -/
theorem Rounds.sum_values_le {g last : Grid Rat} {rs : List (Round Rat)}
    (hrs : Rounds g rs last) (hg : g.IsReduced) (hsq : g.nrows = g.ncols) {top : Rat}
    (htop : 0 ≤ top) (hle : ∀ i < g.nrows, ∀ j < g.ncols, g.value i j ≤ top) :
    (rs.map (·.value)).sum ≤ top := by
  by_cases hne : rs = []
  · simpa [hne] using htop
  · obtain ⟨i, j, hi, hj, _, _, hspared⟩ :=
      hrs.exists_spared hsq hne (ZeroPattern.maximumMatching_isMaximum _)
    -- The spared cell started at `top` at most, lost them all and is not negative.
    have hvalue := hrs.value_of_spared hi hj hspared
    obtain ⟨hrows, hcols⟩ := hrs.shape
    obtain ⟨v, hv⟩ := last.exists_cell? (hrows.symm ▸ hi) (hcols.symm ▸ hj)
    have hnonneg := not_lt.mp ((hrs.isReduced hg).nonneg i j v hv)
    rw [Grid.value_of_cell? hv] at hvalue
    have := hle i hi j hj
    linarith

/-! ## Extremes, and costs between them -/

namespace Grid

theorem mem_cells_of_rowMinima {g : Grid Rat} {d : Rat} (h : some d ∈ g.rowMinima) :
    d ∈ g.cells := by
  obtain ⟨row, hrow, hd⟩ := List.mem_map.mp h
  exact List.mem_flatten.mpr ⟨row, hrow, (Scalar.least?_eq_some_iff.mp hd).1⟩

theorem mem_cells_of_columnMinima {g : Grid Rat} {d : Rat} (h : some d ∈ g.columnMinima) :
    d ∈ g.cells := by
  obtain ⟨column, hcolumn, hd⟩ := List.mem_map.mp h
  obtain ⟨j, _, rfl⟩ := List.mem_map.mp hcolumn
  obtain ⟨i, hi⟩ := mem_column.mp (Scalar.least?_eq_some_iff.mp hd).1
  exact mem_cells.mpr ⟨i, j, hi⟩

/-- What holds of all values by position holds of all cells. -/
theorem forall_mem_cells {g : Grid Rat} {P : Rat → Prop}
    (h : ∀ i < g.nrows, ∀ j < g.ncols, P (g.value i j)) : ∀ v ∈ g.cells, P v := by
  intro v hv
  obtain ⟨i, j, hij⟩ := mem_cells.mp hv
  rw [← value_of_cell? hij]
  exact h i (lt_nrows_of_cell? hij) j (lt_ncols_of_cell? hij)

theorem value_mem {g : Grid Rat} {i j : Nat} (hi : i < g.nrows) (hj : j < g.ncols) :
    g.value i j ∈ {v | ∃ i j, g.cell? i j = some v} := by
  obtain ⟨v, hv⟩ := g.exists_cell? hi hj
  exact ⟨i, j, value_of_cell? hv ▸ hv⟩

/-- The extremes found are the least and the greatest value of the grid. -/
theorem exists_extremes {g : Grid Rat} (hm : 0 < g.nrows) (hn : 0 < g.ncols) :
    ∃ lo hi, Scalar.extremes? g.cells = some (lo, hi) ∧
      IsLeast {v | ∃ i j, g.cell? i j = some v} lo ∧
      IsGreatest {v | ∃ i j, g.cell? i j = some v} hi := by
  obtain ⟨hi, hhi, hgreatest⟩ := exists_greatest? hm hn
  have hne : g.cells ≠ [] := List.ne_nil_of_mem (mem_cells.mpr hgreatest.1)
  obtain ⟨lo, hlo, hmem, hmin⟩ := Scalar.least?_spec hne
  refine ⟨lo, hi, ?_, ⟨mem_cells.mp hmem, ?_⟩, hgreatest⟩
  · rw [Scalar.extremes?, hlo, show Scalar.greatest? g.cells = some hi from hhi]
    rfl
  · intro v hv
    exact not_lt.mp (hmin v (mem_cells.mpr hv))

/-- Costs, converted or not, have the span of the source and stay within its reach. -/
theorem bounded_costs (o : Objective) {g : Grid Rat} {lo hi : Rat}
    (hlo : IsLeast {v | ∃ i j, g.cell? i j = some v} lo)
    (hhi : IsGreatest {v | ∃ i j, g.cell? i j = some v} hi) :
    (o.costs g).Bounded (hi - lo) (max (max (hi - lo) |lo|) |hi|) := by
  have hspan : 0 ≤ hi - lo := sub_nonneg.mpr (hlo.2 hhi.1)
  have hle : hi - lo ≤ max (max (hi - lo) |lo|) |hi| :=
    (le_max_left ..).trans (le_max_left ..)
  cases o with
  | minimize =>
    refine ⟨hspan, hle, ?_, ?_⟩
    · intro i hi' j hj
      have hv := value_mem hi' hj
      refine (abs_le_max_abs_abs (hlo.2 hv) (hhi.2 hv)).trans ?_
      exact max_le_max_right _ (le_max_right ..)
    · intro i hi' j hj k hk l hl
      exact sub_le_sub (hhi.2 (value_mem hi' hj)) (hlo.2 (value_mem hk hl))
  | maximize =>
    have hrows : g.complement.nrows = g.nrows := nrows_complement g
    have hcols : g.complement.ncols = g.ncols := ncols_complement g
    obtain ⟨i₀, j₀, hcell⟩ := hhi.1
    obtain ⟨top, htop, hgreatest⟩ :=
      exists_greatest? (Nat.zero_lt_of_lt (lt_nrows_of_cell? hcell))
        (Nat.zero_lt_of_lt (lt_ncols_of_cell? hcell))
    obtain rfl : top = hi := hgreatest.unique hhi
    -- Distances from the largest value lie between zero and the span.
    have hvalue : ∀ i < g.complement.nrows, ∀ j < g.complement.ncols,
        0 ≤ g.complement.value i j ∧ g.complement.value i j ≤ top - lo := by
      intro i hi' j hj
      rw [hrows] at hi'
      rw [hcols] at hj
      have hv := value_mem hi' hj
      rw [value_complement htop hi' hj]
      exact ⟨sub_nonneg.mpr (hhi.2 hv), sub_le_sub_left (hlo.2 hv) top⟩
    refine ⟨hspan, hle, ?_, ?_⟩
    · intro i hi' j hj
      obtain ⟨hnonneg, hupper⟩ := hvalue i hi' j hj
      rw [show (Objective.maximize.costs g) = g.complement from rfl, abs_of_nonneg hnonneg]
      exact hupper.trans hle
    · intro i hi' j hj k hk l hl
      have hfirst := (hvalue i hi' j hj).2
      have hsecond := (hvalue k hk l hl).1
      exact (sub_le_self _ hsecond).trans hfirst

end Grid

/-! ## Whole runs -/

namespace Run

/-- Every matrix of a run. -/
def matrices (r : Run Rat) : List (Grid Rat) :=
  [r.source.toGrid, r.costs, r.balanced, r.rowReduced] ++ r.working

/-- The values that a run picks out of its matrices: the largest one of the source, the
    smallest ones of rows and columns, and those adjusted by. -/
def picked (r : Run Rat) : List Rat :=
  r.source.greatest?.toList ++ r.balanced.rowMinima.filterMap id
    ++ r.rowReduced.columnMinima.filterMap id ++ r.descent.rounds.map (·.value)

/-- All numbers of a run before the total is added up. -/
def computed (r : Run Rat) : List Rat := r.matrices.flatMap Grid.cells ++ r.picked

variable (c : Config) (a : CostMatrix Rat)

/-- The value that a round adjusts by is a cell of the working matrix before it. -/
theorem exists_mem_cells_of_round {r : Round Rat}
    (hr : r ∈ (ofSource c a).descent.rounds) :
    ∃ w ∈ (ofSource c a).working, r.value ∈ w.cells := by
  obtain ⟨last, hrounds⟩ := exists_rounds c a
  obtain ⟨t, ht⟩ := List.mem_iff_getElem?.mp hr
  have hlt : t < (ofSource c a).working.length := by
    have := (List.getElem?_eq_some_iff.mp ht).1
    rw [working, Descent.matrices, List.length_cons, List.length_map]
    omega
  have hw := List.getElem?_eq_getElem hlt
  obtain ⟨i, j, hcell, _⟩ := (hrounds.isRound hw ht).lowest.attained
  exact ⟨_, List.mem_of_getElem? hw, Grid.mem_cells.mpr ⟨i, j, hcell⟩⟩

/-- What is picked out is a cell of one of the matrices. -/
theorem exists_mem_cells_of_mem_picked {v : Rat} (hv : v ∈ (ofSource c a).picked) :
    ∃ g ∈ (ofSource c a).matrices, v ∈ g.cells := by
  simp only [picked, List.mem_append, Option.mem_toList, List.mem_filterMap, id_eq,
    exists_eq_right, List.mem_map, or_assoc] at hv
  rcases hv with htop | hrow | hcol | ⟨r, hr, rfl⟩
  · exact ⟨(ofSource c a).source.toGrid, by simp [matrices],
      (Scalar.greatest?_eq_some_iff.mp htop).1⟩
  · exact ⟨(ofSource c a).balanced, by simp [matrices], Grid.mem_cells_of_rowMinima hrow⟩
  · exact ⟨(ofSource c a).rowReduced, by simp [matrices],
      Grid.mem_cells_of_columnMinima hcol⟩
  · obtain ⟨w, hw, hmem⟩ := exists_mem_cells_of_round c a hr
    exact ⟨w, List.mem_append_right _ hw, hmem⟩

/-- A sum of source cells is no further from zero than so many cells can be. -/
theorem abs_costOf_le {r : Run Rat} {mag : Rat} (h : ∀ v ∈ r.source.cells, |v| ≤ mag)
    (hmag : 0 ≤ mag) (pairs : List Pair) : |r.costOf pairs| ≤ pairs.length * mag := by
  have hcells : ∀ v ∈ pairs.filterMap fun p => r.source.cell? p.row p.col, |v| ≤ mag := by
    intro v hv
    obtain ⟨p, _, hp⟩ := List.mem_filterMap.mp hv
    exact h v (Grid.mem_cells.mpr ⟨_, _, hp⟩)
  rw [costOf, Scalar.total_rat]
  refine (abs_sum_le hcells).trans (mul_le_mul_of_nonneg_right ?_ hmag)
  exact Nat.cast_le.mpr (List.length_filterMap_le ..)

section Bounds

variable {c a} {span mag : Rat} (hsource : a.toGrid.Bounded span mag)
  (hcosts : (ofSource c a).costs.Bounded span mag)

include hcosts

include hsource in
/-- **Up to row reduction no cell is further from zero than the reach of the source.** -/
theorem abs_early_le {g : Grid Rat}
    (hg : g ∈ [a.toGrid, (ofSource c a).costs, (ofSource c a).balanced,
      (ofSource c a).rowReduced]) : ∀ v ∈ g.cells, |v| ≤ mag := by
  simp only [List.mem_cons, List.not_mem_nil, or_false] at hg
  rcases hg with rfl | rfl | rfl | rfl
  · exact Grid.forall_mem_cells fun i _ j _ => hsource.abs_value_le i j
  · exact Grid.forall_mem_cells fun i _ j _ => hcosts.abs_value_le i j
  · refine Grid.forall_mem_cells fun i _ j _ => ?_
    rw [show (ofSource c a).balanced = (ofSource c a).costs.balanced from rfl,
      Grid.value_balanced]
    exact hcosts.abs_value_le i j
  · refine Grid.forall_mem_cells fun i hi j hj => ?_
    obtain ⟨hnonneg, hupper⟩ := hcosts.value_reduceRows (i := i) (j := j)
      (by simpa [ofSource] using hi) (by simpa [ofSource] using hj)
    exact (abs_of_nonneg hnonneg).le.trans hupper

theorem value_reduced_le {i j : Nat} (hi : i < (ofSource c a).reduced.nrows)
    (hj : j < (ofSource c a).reduced.ncols) : (ofSource c a).reduced.value i j ≤ span :=
  hcosts.value_reduced_le (by simpa [ofSource] using hi) (by simpa [ofSource] using hj)

/-- However many rounds lead to a working matrix, they adjust by no more than the span. -/
theorem sum_values_le {rs : List (Round Rat)} {w : Grid Rat}
    (hrounds : Rounds (ofSource c a).reduced rs w) : (rs.map (·.value)).sum ≤ span :=
  hrounds.sum_values_le (isReduced_reduced c a)
    ((nrows_reduced c a).trans (ncols_reduced c a).symm) hcosts.span_nonneg
    fun _ hi _ hj => value_reduced_le hcosts hi hj

/-- **From column reduction on every cell lies between zero and twice the span.** -/
theorem working_le {w : Grid Rat} (hw : w ∈ (ofSource c a).working) :
    ∀ v ∈ w.cells, 0 ≤ v ∧ v ≤ 2 * span := by
  obtain ⟨rs, hrounds⟩ := exists_rounds_of_mem_working c a hw
  obtain ⟨hrows, hcols⟩ := hrounds.shape
  intro v hv
  obtain ⟨i, j, hij⟩ := Grid.mem_cells.mp hv
  constructor
  · exact not_lt.mp ((isReduced_of_mem_working c a hw).nonneg i j v hij)
  · -- The cell started within the span and gained at most what was adjusted by, again that much.
    have hi := hrows ▸ Grid.lt_nrows_of_cell? hij
    have hj := hcols ▸ Grid.lt_ncols_of_cell? hij
    have hstart := value_reduced_le hcosts hi hj
    have hsum := sum_values_le hcosts hrounds
    have hgain := hrounds.value_le hi hj
    rw [Grid.value_of_cell? hij] at hgain
    linarith

include hsource in
/-- Nothing that a run computes is further from zero than twice the reach of the source. -/
theorem abs_computed_le_two_mul : ∀ v ∈ (ofSource c a).computed, |v| ≤ 2 * mag := by
  have hcells : ∀ g ∈ (ofSource c a).matrices, ∀ v ∈ g.cells, |v| ≤ 2 * mag := by
    have hmag := hcosts.mag_nonneg
    intro g hg v hv
    rcases List.mem_append.mp hg with hg | hg
    · have := abs_early_le hsource hcosts hg v hv
      linarith
    · obtain ⟨hnonneg, hupper⟩ := working_le hcosts hg v hv
      have := hcosts.span_le
      rw [abs_of_nonneg hnonneg]
      linarith
  intro v hv
  rcases List.mem_append.mp hv with hv | hv
  · obtain ⟨g, hg, hmem⟩ := List.mem_flatMap.mp hv
    exact hcells g hg v hmem
  · obtain ⟨g, hg, hmem⟩ := exists_mem_cells_of_mem_picked c a hv
    exact hcells g hg v hmem

include hsource in
/-- **No partial sum of the total is further from zero than as many cells as there are pairs
    can be.** -/
theorem abs_partial_total_le {μ : Matching}
    (hending : (ofSource c a).descent.ending = .complete μ) (t : Nat) :
    |(ofSource c a).costOf (((ofSource c a).solutionOf μ).assignment.take t)| ≤
      (min a.nrows a.ncols : Nat) * mag := by
  have hlength := (List.length_take_le' t ((ofSource c a).solutionOf μ).assignment).trans
    (isFeasible_solutionOf c a hending).length_eq.le
  refine (abs_costOf_le (abs_early_le hsource hcosts List.mem_cons_self) ?_ _).trans ?_
  · exact hcosts.mag_nonneg
  · exact mul_le_mul_of_nonneg_right (Nat.cast_le.mpr hlength) hcosts.mag_nonneg

end Bounds

end Run

/-- **The range that is tested bounds the whole run.**  Let `lo` and `hi` be the least and the
    greatest value of an accepted matrix within the limit, and the reach of the matrix the
    largest of their distance and their distances from zero.  For either objective: up to row
    reduction no cell is further from zero than the reach; from column reduction on and after
    every adjustment, cells lie between zero and twice the span; the values adjusted by add up
    to at most the span; and no partial sum of the total is further from zero than as many
    reaches as there are pairs.  So nothing that is computed exceeds the quantity that the
    check on the range requires to be finite. -/
theorem abs_computed_le (s : Solver) (a : CostMatrix Rat) (hlimit : s.exceededLimit? a = none) :
    ∃ lo hi : Rat, Scalar.extremes? a.cells = some (lo, hi) ∧
      IsLeast {v | ∃ i j, a.cell? i j = some v} lo ∧
      IsGreatest {v | ∃ i j, a.cell? i j = some v} hi ∧
      let run := Run.ofSource s.config a
      let span := hi - lo
      let mag := max (max span |lo|) |hi|
      let bound := Scalar.reach lo hi * Scalar.ofNat 2 * (Scalar.ofNat a.dimension + Scalar.ofNat 1)
      Scalar.inRange lo hi a.dimension = (Scalar.isFinite span && Scalar.isFinite bound) ∧
      bound = 2 * (a.dimension + 1) * mag ∧
      (∀ g ∈ [a.toGrid, run.costs, run.balanced, run.rowReduced], ∀ v ∈ g.cells, |v| ≤ mag) ∧
      (∀ w ∈ run.working, ∀ v ∈ w.cells, 0 ≤ v ∧ v ≤ 2 * span) ∧
      (run.descent.rounds.map (·.value)).sum ≤ span ∧
      (∀ v ∈ run.computed, |v| ≤ bound) ∧
      ∃ sol, s.solveMatrix a = .ok sol ∧ sol.totalCost = run.costOf sol.assignment ∧
        ∀ t, |run.costOf (sol.assignment.take t)| ≤ (min a.nrows a.ncols : Nat) * mag ∧
          |run.costOf (sol.assignment.take t)| ≤ bound := by
  obtain ⟨lo, hi, hextremes, hlo, hhi⟩ := Grid.exists_extremes a.nrows_pos a.ncols_pos
  refine ⟨lo, hi, hextremes, hlo, hhi, ?_⟩
  intro run span mag bound
  have hcosts : run.costs.Bounded span mag := Grid.bounded_costs s.config.objective hlo hhi
  have hsource : a.toGrid.Bounded span mag := Grid.bounded_costs .minimize hlo hhi
  have hmag := hcosts.mag_nonneg
  have hbound : bound = 2 * (a.dimension + 1) * mag := by
    show Scalar.reach lo hi * 2 * ((a.dimension : Rat) + 1) = _
    rw [Scalar.reach_rat]
    ring
  -- The quantity tested leaves room for two reaches and for as many as there are pairs.
  have htwice : 2 * mag ≤ bound := by
    have hdim : (0 : Rat) ≤ a.dimension := Nat.cast_nonneg _
    rw [hbound]
    nlinarith
  have hpairs : (min a.nrows a.ncols : Nat) * mag ≤ bound := by
    have hmin : ((min a.nrows a.ncols : Nat) : Rat) ≤ a.dimension :=
      Nat.cast_le.mpr (min_le_max (a := a.nrows) (b := a.ncols))
    rw [hbound]
    nlinarith
  obtain ⟨last, hrounds⟩ := Run.exists_rounds s.config a
  obtain ⟨μ, hending⟩ := Run.exists_complete s.config a
  refine ⟨rfl, hbound, fun g hg => Run.abs_early_le hsource hcosts hg,
    fun w hw => Run.working_le hcosts hw, Run.sum_values_le hcosts hrounds, ?_,
    run.solutionOf μ, s.solveMatrix_eq_ok_of_complete hlimit hending, rfl, ?_⟩
  · intro v hv
    exact (Run.abs_computed_le_two_mul hsource hcosts v hv).trans htwice
  · intro t
    have hsum := Run.abs_partial_total_le hsource hcosts hending t
    exact ⟨hsum, hsum.trans hpairs⟩

/-- Values of both signs in more rows than columns, so that dummy zeros enter, and a loop that
    has to adjust. -/
theorem abs_computed_le_mixed_signs :
    let s : Solver := ⟨⟨.minimize, none, true⟩, rfl⟩
    let table : RawTable Rat := [[-3, 2], [2, 4], [3, 6]]
    ∃ (a : CostMatrix Rat) (lo hi : Rat), CostMatrix.ofRows table = .ok a ∧
      s.exceededLimit? a = none ∧ IsLeast {v | ∃ i j, a.cell? i j = some v} lo ∧
      IsGreatest {v | ∃ i j, a.cell? i j = some v} hi ∧
      (∀ w ∈ (Run.ofSource s.config a).working, ∀ v ∈ w.cells, 0 ≤ v ∧ v ≤ 2 * (hi - lo)) ∧
      ((Run.ofSource s.config a).descent.rounds.map (·.value)).sum ≤ hi - lo := by
  intro s table
  let g : Grid Rat := ⟨2, table, by decide⟩
  obtain ⟨a, ha, _⟩ := CostMatrix.exists_ofRows (g := g) (by decide) (by decide)
  obtain ⟨lo, hi, _, hlo, hhi, _, _, _, hworking, hsum, _⟩ := abs_computed_le s a rfl
  exact ⟨a, lo, hi, ha, rfl, hlo, hhi, hworking, hsum⟩

end LinearAssignment
