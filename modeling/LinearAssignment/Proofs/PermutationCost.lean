import Mathlib.Algebra.BigOperators.Fin
import Mathlib.Algebra.BigOperators.Ring.Finset
import Mathlib.Tactic.Ring
import LinearAssignment.Padding
import LinearAssignment.Proofs.Assignments
import LinearAssignment.Proofs.Rounds

/-! # The cost of a permutation, stage by stage

    Over the rationals each stage of the method takes from every cell of a square matrix a
    share of its row and a share of its column.  A permutation meets every row and every
    column once, so it loses all shares, whichever permutation it is.

    * `Grid.costAlong`: the cost of a permutation; `Grid.costOf`: the cost of given pairs.
    * `costAlong_of_shares`: what shares of the lines do to the cost.
    * `cell?_reduceRows_add`, `cell?_reduceColumns_add`: what one pass takes off a cell.
    * `costAlong_reduceRows`, `costAlong_reduceColumns`, `costAlong_adjustBy`: the stages.
    * `Rounds.costAlong_eq`: a chain of rounds.
    * `costAlong_eq_costOf`, `costOf_complement`: dummy lines and the largest value. -/

namespace LinearAssignment

namespace Grid

/-- The value at a position, zero outside the grid. -/
def value (g : Grid Rat) (i j : Nat) : Rat := (g.cell? i j).getD 0

/-- The sum of the cells that a permutation picks, one in each row and in each column. -/
def costAlong (g : Grid Rat) {n : Nat} (σ : Equiv.Perm (Fin n)) : Rat :=
  ∑ i : Fin n, g.value i (σ i)

/-- The sum of the cells at the given pairs. -/
def costOf (g : Grid Rat) (pairs : List Pair) : Rat :=
  (pairs.map fun p => g.value p.row p.col).sum

theorem value_of_cell? {g : Grid Rat} {i j : Nat} {v : Rat} (h : g.cell? i j = some v) :
    g.value i j = v := by
  rw [value, h, Option.getD_some]

theorem value_of_outside {g : Grid Rat} {i j : Nat} (h : g.nrows ≤ i ∨ g.ncols ≤ j) :
    g.value i j = 0 := by
  rw [value, (g.cell?_eq_none_iff i j).mpr h, Option.getD_none]

theorem exists_cell?_fin {g : Grid Rat} {n : Nat} (hrows : g.nrows = n) (hcols : g.ncols = n)
    (i j : Fin n) : ∃ v, g.cell? i j = some v :=
  g.exists_cell? (hrows.symm ▸ i.isLt) (hcols.symm ▸ j.isLt)

/-- A zero of the pattern is a cell with value zero. -/
theorem cell?_of_isZero {g : Grid Rat} {i j : Nat} (h : g.zeroPattern.IsZero i j) :
    g.cell? i j = some 0 := by
  obtain ⟨v, hv, hzero⟩ := (isZero_zeroPattern_iff ..).mp h
  rw [hv, (Scalar.isZero_rat v).mp hzero]

theorem value_of_isZero {g : Grid Rat} {i j : Nat} (h : g.zeroPattern.IsZero i j) :
    g.value i j = 0 :=
  value_of_cell? (cell?_of_isZero h)

/-! ## Shares of the lines -/

variable {n : Nat}

/-- **When every cell loses a share of its row and a share of its column, every permutation
    loses all the shares.** -/
theorem costAlong_of_shares {g w : Grid Rat} (σ : Equiv.Perm (Fin n)) (x y : Fin n → Rat)
    (h : ∀ i j : Fin n, g.value i j = w.value i j + x i + y j) :
    g.costAlong σ = w.costAlong σ + ∑ i, x i + ∑ j, y j := by
  have hcols : ∑ i, y (σ i) = ∑ j, y j := Equiv.sum_comp σ y
  unfold costAlong
  calc ∑ i : Fin n, g.value i (σ i) = ∑ i : Fin n, (w.value i (σ i) + x i + y (σ i)) :=
        Finset.sum_congr rfl fun i _ => h i (σ i)
    _ = ∑ i : Fin n, w.value i (σ i) + ∑ i, x i + ∑ i, y (σ i) := by
        rw [Finset.sum_add_distrib, Finset.sum_add_distrib]
    _ = ∑ i : Fin n, w.value i (σ i) + ∑ i, x i + ∑ j, y j := by rw [hcols]

theorem sum_getD_eq_sum {values : List Rat} (h : values.length = n) :
    ∑ i : Fin n, values.getD i 0 = values.sum := by
  subst h
  rw [← Fin.sum_univ_getElem values]
  exact Finset.sum_congr rfl fun i _ => by simp

/-! ## Reduction -/

/-- Leaving a line with smallest value zero alone is lowering it by zero. -/
theorem lowerBy_rat (d v : Rat) : lowerBy (some d) v = v - d := by
  unfold lowerBy
  by_cases hd : Scalar.isZero d = true
  · simp [(Scalar.isZero_rat d).mp hd]
  · simp [hd]

theorem nrows_eq_of_rowMinima {g : Grid Rat} {r : List Rat} (h : g.rowMinima = r.map some) :
    r.length = g.nrows := by
  have := congrArg List.length h
  simpa [rowMinima, nrows] using this.symm

theorem ncols_eq_of_columnMinima {g : Grid Rat} {c : List Rat}
    (h : g.columnMinima = c.map some) : c.length = g.ncols := by
  have := congrArg List.length h
  simpa [columnMinima, columns] using this.symm

/-- A cell is what reducing the rows leaves of it and the minimum of its row. -/
theorem cell?_reduceRows_add {g : Grid Rat} {r : List Rat} (hr : g.rowMinima = r.map some)
    {i j : Nat} {v : Rat} (hv : g.cell? i j = some v) :
    ∃ w x, g.reduceRows.cell? i j = some w ∧ r[i]? = some x ∧ v = w + x := by
  have hi : i < r.length := (nrows_eq_of_rowMinima hr).symm ▸ lt_nrows_of_cell? hv
  have hmin : g.rowMinima[i]? = some (some r[i]) := by simp [hr, hi]
  have hcell := cell?_reduceRows_of_min hmin (j := j)
  rw [hv, Option.map_some, lowerBy_rat] at hcell
  exact ⟨v - r[i], r[i], hcell, List.getElem?_eq_getElem hi, (sub_add_cancel ..).symm⟩

/-- Reducing the rows takes the row minima off the cost. -/
theorem costAlong_reduceRows {g : Grid Rat} (hrows : g.nrows = n) (hcols : g.ncols = n)
    {r : List Rat} (hr : g.rowMinima = r.map some) (σ : Equiv.Perm (Fin n)) :
    g.costAlong σ = g.reduceRows.costAlong σ + r.sum := by
  have hlen : r.length = n := (nrows_eq_of_rowMinima hr).trans hrows
  have hshares := costAlong_of_shares (g := g) (w := g.reduceRows) σ
    (fun i => r.getD i 0) (fun _ => 0) ?_
  · rw [hshares, sum_getD_eq_sum hlen, Finset.sum_const_zero, add_zero]
  · intro i j
    obtain ⟨v, hv⟩ := exists_cell?_fin hrows hcols i j
    obtain ⟨w, x, hw, hx, rfl⟩ := cell?_reduceRows_add hr hv
    rw [value_of_cell? hv, value_of_cell? hw, List.getD_eq_getElem?_getD, hx, Option.getD_some,
      add_zero]

/-- A cell is what reducing the columns leaves of it and the minimum of its column. -/
theorem cell?_reduceColumns_add {g : Grid Rat} {s : List Rat} (hs : g.columnMinima = s.map some)
    {i j : Nat} {v : Rat} (hv : g.cell? i j = some v) :
    ∃ w y, g.reduceColumns.cell? i j = some w ∧ s[j]? = some y ∧ v = w + y := by
  have hj : j < s.length := (ncols_eq_of_columnMinima hs).symm ▸ lt_ncols_of_cell? hv
  have hmin : g.columnMinima[j]? = some (some s[j]) := by simp [hs, hj]
  have hcell := cell?_reduceColumns_of_min hmin (i := i)
  rw [hv, Option.map_some, lowerBy_rat] at hcell
  exact ⟨v - s[j], s[j], hcell, List.getElem?_eq_getElem hj, (sub_add_cancel ..).symm⟩

/-- Reducing the columns takes the column minima off the cost. -/
theorem costAlong_reduceColumns {g : Grid Rat} (hrows : g.nrows = n) (hcols : g.ncols = n)
    {c : List Rat} (hc : g.columnMinima = c.map some) (σ : Equiv.Perm (Fin n)) :
    g.costAlong σ = g.reduceColumns.costAlong σ + c.sum := by
  have hlen : c.length = n := (ncols_eq_of_columnMinima hc).trans hcols
  have hshares := costAlong_of_shares (g := g) (w := g.reduceColumns) σ
    (fun _ => 0) (fun j => c.getD j 0) ?_
  · rw [hshares, sum_getD_eq_sum hlen, Finset.sum_const_zero, add_zero]
  · intro i j
    obtain ⟨v, hv⟩ := exists_cell?_fin hrows hcols i j
    obtain ⟨w, y, hw, hy, rfl⟩ := cell?_reduceColumns_add hc hv
    rw [value_of_cell? hv, value_of_cell? hw, List.getD_eq_getElem?_getD, hy, Option.getD_some,
      add_zero]

/-! ## Adjustment -/

/-- One for a chosen line, zero for any other. -/
def weight (chosen : Bool) : Rat := if chosen then 1 else 0

/-- The weights of lines add up to the number of chosen ones. -/
theorem sum_weight {flags : List Bool} (h : flags.length = n) :
    ∑ i : Fin n, weight (flags[(i : Nat)]?.getD false) = flags.count true := by
  have hcount : flags.count true =
      ((Finset.range n).filter fun i => flags[i]?.getD false = true).card := by
    rw [← h]
    apply countP_eq_card_filter_range
    intro i b hb
    simp [hb]
  rw [hcount, Fin.sum_univ_eq_sum_range fun i => weight (flags[i]?.getD false)]
  simp [weight]

/-- A cell loses `d` and gets it back for every line it lies on: nothing changes on one
    line, and on two lines the cell gains. -/
theorem value_adjustBy {g : Grid Rat} {lines : LineCover} {d : Rat} {i j : Nat}
    (hi : i < g.nrows) (hj : j < g.ncols) (hrows : i < lines.rows.length)
    (hcols : j < lines.cols.length) :
    g.value i j = (g.adjustBy lines d).value i j + d * (1 - weight (lines.coversRow i))
      + -(d * weight (lines.coversCol j)) := by
  obtain ⟨v, hv⟩ := g.exists_cell? hi hj
  have hcell := cell?_adjustBy g lines d i j
  rw [hv, Option.map_some] at hcell
  rw [value_of_cell? hv, value_of_cell? hcell]
  cases hrow : lines.coversRow i <;> cases hcol : lines.coversCol j <;>
    simp [LineCover.isUncovered, LineCover.isDoublyCovered, weight, hrows, hcols, hrow, hcol]

/-- Adjusting takes the value adjusted by off the cost once for every line that a cover with
    a line for every row would have more. -/
theorem costAlong_adjustBy {g : Grid Rat} (hrows : g.nrows = n) (hcols : g.ncols = n)
    {lines : LineCover} (hlr : lines.rows.length = n) (hlc : lines.cols.length = n) (d : Rat)
    (σ : Equiv.Perm (Fin n)) :
    g.costAlong σ = (g.adjustBy lines d).costAlong σ + d * (n - lines.size) := by
  have hshares := costAlong_of_shares (g := g) (w := g.adjustBy lines d) σ
    (fun i => d * (1 - weight (lines.coversRow i)))
    (fun j => -(d * weight (lines.coversCol j))) ?_
  · have hrow : ∑ i : Fin n, weight (lines.coversRow i) = lines.rows.count true :=
      sum_weight hlr
    have hcol : ∑ j : Fin n, weight (lines.coversCol j) = lines.cols.count true :=
      sum_weight hlc
    have hsize : (lines.size : Rat) = lines.rows.count true + lines.cols.count true :=
      Nat.cast_add ..
    rw [hshares, ← Finset.mul_sum, Finset.sum_sub_distrib, Finset.sum_neg_distrib,
      ← Finset.mul_sum, hrow, hcol, hsize]
    simp only [Finset.sum_const, Finset.card_univ, Fintype.card_fin, nsmul_eq_mul, mul_one]
    ring
  · intro i j
    exact value_adjustBy (hrows.symm ▸ i.isLt) (hcols.symm ▸ j.isLt) (hlr.symm ▸ i.isLt)
      (hlc.symm ▸ j.isLt)

end Grid

/-! ## Rounds -/

/-- What a round on a matrix with `n` rows takes off the cost of every permutation. -/
def Round.drop (n : Nat) (r : Round Rat) : Rat := r.value * (n - r.lines.size)

theorem Grid.IsRound.costAlong_eq {g : Grid Rat} {r : Round Rat} (hr : g.IsRound r) {n : Nat}
    (hrows : g.nrows = n) (hcols : g.ncols = n) (σ : Equiv.Perm (Fin n)) :
    g.costAlong σ = r.matrix.costAlong σ + r.drop n := by
  rw [hr.matrix, Round.drop]
  apply Grid.costAlong_adjustBy hrows hcols
  · rw [hr.lines, ZeroPattern.length_rows_cover, Grid.nrows_zeroPattern, hrows]
  · rw [hr.lines, ZeroPattern.length_cols_cover, Grid.ncols_zeroPattern, hcols]

/-- **A chain of rounds takes the same off the cost of every permutation.** -/
theorem Rounds.costAlong_eq {g h : Grid Rat} {rs : List (Round Rat)} (hrs : Rounds g rs h)
    {n : Nat} (hrows : g.nrows = n) (hcols : g.ncols = n) (σ : Equiv.Perm (Fin n)) :
    g.costAlong σ = h.costAlong σ + (rs.map (Round.drop n)).sum := by
  induction hrs with
  | nil g => simp
  | @cons g h r rs hr _ ih =>
    have hstep := hr.costAlong_eq hrows hcols σ
    have hrest := ih (by rw [hr.matrix]; simpa using hrows) (by rw [hr.matrix]; simpa using hcols)
    rw [hstep, hrest, List.map_cons, List.sum_cons]
    ring

namespace Grid

/-! ## Padding -/

/-- Dummy cells cost what cells outside the grid are said to cost. -/
theorem value_balanced (g : Grid Rat) (i j : Nat) : g.balanced.value i j = g.value i j := by
  unfold balanced
  split
  · rfl
  · unfold value
    rw [cell?_padTo]
    split
    · rfl
    · next hout =>
      have hnone : g.cell? i j = none := by
        rw [cell?_eq_none_iff]
        have hle := Nat.le_max_left g.nrows g.ncols
        have hle' := Nat.le_max_right g.nrows g.ncols
        unfold dimension at hout
        omega
      rw [hnone]

theorem costAlong_balanced (g : Grid Rat) {n : Nat} (σ : Equiv.Perm (Fin n)) :
    g.balanced.costAlong σ = g.costAlong σ := by
  unfold costAlong
  exact Finset.sum_congr rfl fun i _ => g.value_balanced i (σ i)

/-- A permutation costs what its pairs in the grid cost. -/
theorem costAlong_eq_costOf (g : Grid Rat) {n : Nat} (σ : Equiv.Perm (Fin n)) :
    g.costAlong σ = g.costOf (g.pairsAlong σ) := by
  have hnodup := (List.nodup_finRange n).filter fun i : Fin n => i < g.nrows && σ i < g.ncols
  unfold costAlong costOf pairsAlong
  rw [List.map_map, ← List.sum_toFinset _ hnodup, List.toFinset_filter, List.toFinset_finRange]
  refine (Finset.sum_filter_of_ne fun i _ hne => ?_).symm
  -- A pair outside the grid costs nothing.
  by_contra hout
  refine hne (value_of_outside ?_)
  simp only [Bool.and_eq_true, decide_eq_true_eq, not_and_or, Nat.not_lt] at hout
  exact hout

theorem costOf_perm (g : Grid Rat) {pairs pairs' : List Pair} (h : pairs.Perm pairs') :
    g.costOf pairs = g.costOf pairs' :=
  (h.map _).sum_eq

/-! ## Complement -/

/-- The largest value of a grid with cells is one of them, and no cell exceeds it. -/
theorem exists_greatest? {g : Grid Rat} (hm : 0 < g.nrows) (hn : 0 < g.ncols) :
    ∃ top, g.greatest? = some top ∧ IsGreatest {v | ∃ i j, g.cell? i j = some v} top := by
  have hne : g.cells ≠ [] := by
    obtain ⟨v, hv⟩ := g.exists_cell? hm hn
    exact List.ne_nil_of_mem (mem_cells.mpr ⟨0, 0, hv⟩)
  obtain ⟨top, htop, hmem, hmax⟩ := Scalar.greatest?_spec hne
  refine ⟨top, htop, mem_cells.mp hmem, ?_⟩
  intro v hv
  exact not_lt.mp (hmax v (mem_cells.mpr hv))

theorem value_complement {g : Grid Rat} {top : Rat} (htop : g.greatest? = some top) {i j : Nat}
    (hi : i < g.nrows) (hj : j < g.ncols) : g.complement.value i j = top - g.value i j := by
  obtain ⟨v, hv⟩ := g.exists_cell? hi hj
  have hcell : g.complement.cell? i j = some (top - v) := by
    unfold complement
    rw [htop]
    simp [map, hv]
  rw [value_of_cell? hv, value_of_cell? hcell]

/-- In the complement, pairs cost their distance from as many largest values. -/
theorem costOf_complement {g : Grid Rat} {top : Rat} (htop : g.greatest? = some top)
    {pairs : List Pair} (h : ∀ p ∈ pairs, p.row < g.nrows ∧ p.col < g.ncols) :
    g.complement.costOf pairs = pairs.length * top - g.costOf pairs := by
  unfold costOf
  induction pairs with
  | nil => simp
  | cons p pairs ih =>
    obtain ⟨hrow, hcol⟩ := h p List.mem_cons_self
    have hrest := ih fun q hq => h q (List.mem_cons_of_mem p hq)
    simp only [List.map_cons, List.sum_cons, List.length_cons, Nat.cast_add, Nat.cast_one]
    rw [hrest, value_complement htop hrow hcol]
    ring

theorem pairsAlong_complement (g : Grid Rat) {n : Nat} (σ : Equiv.Perm (Fin n)) :
    g.complement.pairsAlong σ = g.pairsAlong σ := by
  simp only [pairsAlong, nrows_complement, ncols_complement]

end Grid

end LinearAssignment
