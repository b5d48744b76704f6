import LinearAssignment.Adjustment
import LinearAssignment.Proofs.GreedyMatching
import LinearAssignment.Proofs.ReducedGrid

/-! # What an adjustment achieves

    Adjusting to the lines read off a maximum matching keeps every zero that lies on a single
    line, the pairs among them, and makes a zero on no line.  Walking from the unpaired rows
    as before, the marking therefore reaches all it reached and the column of the new zero as
    well: either the matching can now be enlarged or more columns are marked.

    * `Lowest`: a positive value that is the smallest on no line.
    * `IsReduced.adjustBy`: the adjusted grid is reduced again.
    * `Lowest.lines_advance`: if the matching cannot be enlarged, there are more columns and
      fewer rows among the lines.
    * `adjustBy_progress`: a larger matching, or more marked columns.
    * `exists_minUncovered_cover`: while the matching is incomplete there is a value to adjust
      by. -/

namespace LinearAssignment

namespace Grid

variable {K : Type} {g : Grid K} {lines : LineCover} {d : K} {μ : Matching}

/-! ## The value to adjust by -/

theorem mem_uncovered {v : K} :
    v ∈ g.uncovered lines ↔ ∃ i j, g.cell? i j = some v ∧ lines.isUncovered i j = true := by
  simp only [uncovered, List.mem_filterMap, id_eq, exists_eq_right, mem_cells, cell?_mapIdx,
    Option.map_eq_some_iff]
  constructor
  · intro h
    obtain ⟨i, j, w, hw, hv⟩ := h
    split at hv
    · next hunc => exact ⟨i, j, Option.some.inj hv ▸ hw, hunc⟩
    · cases hv
  · intro h
    obtain ⟨i, j, hv, hunc⟩ := h
    exact ⟨i, j, v, hv, by simp [hunc]⟩

variable [Scalar K]

theorem cell?_adjustBy (g : Grid K) (lines : LineCover) (d : K) (i j : Nat) :
    (g.adjustBy lines d).cell? i j = (g.cell? i j).map fun v =>
      if lines.isUncovered i j then v - d
      else if lines.isDoublyCovered i j then v + d
      else v :=
  cell?_mapIdx ..

theorem minUncovered_eq_ok_iff :
    g.minUncovered lines = .ok d ↔
      Scalar.least? (g.uncovered lines) = some d ∧ 0 < d ∧ Scalar.isFinite d = true := by
  unfold minUncovered
  cases hleast : Scalar.least? (g.uncovered lines) with
  | none => simp
  | some e =>
    simp only [Option.some.injEq]
    by_cases hpos : 0 < e
    · by_cases hfin : Scalar.isFinite e = true
      · simp only [hpos, hfin, if_true, Except.ok.injEq]
        constructor
        · intro h
          obtain rfl := h
          exact ⟨rfl, hpos, hfin⟩
        · exact fun h => h.1
      · simp only [hpos, hfin, if_true]
        constructor
        · intro h
          cases h
        · intro h
          obtain ⟨rfl, -, hd⟩ := h
          exact absurd hd hfin
    · simp only [hpos, if_false]
      constructor
      · intro h
        cases h
      · intro h
        obtain ⟨rfl, hd, -⟩ := h
        exact absurd hd hpos

/-- The value is positive, no cell on no line is below it, and one such cell attains it. -/
structure Lowest (g : Grid K) (lines : LineCover) (d : K) : Prop where
  pos : 0 < d
  le : ∀ i j v, g.cell? i j = some v → lines.isUncovered i j = true → ¬ v < d
  attained : ∃ i j, g.cell? i j = some d ∧ lines.isUncovered i j = true

/-! ## Zeros that an adjustment keeps -/

/-- A zero on exactly one line stays a zero. -/
theorem isZero_adjustBy_of_single {i j : Nat} (hz : g.zeroPattern.IsZero i j)
    (hunc : lines.isUncovered i j = false) (hdbl : lines.isDoublyCovered i j = false) :
    (g.adjustBy lines d).zeroPattern.IsZero i j := by
  obtain ⟨v, hv, hzero⟩ := (isZero_zeroPattern_iff ..).mp hz
  refine (isZero_zeroPattern_iff ..).mpr ⟨v, ?_, hzero⟩
  rw [cell?_adjustBy, hv, Option.map_some, hunc, hdbl]
  rfl

/-- A zero of a marked row stays a zero. -/
theorem isZero_adjustBy_of_marked {i j : Nat} (hi : g.zeroPattern.Marked μ i)
    (hz : g.zeroPattern.IsZero i j) :
    (g.adjustBy (g.zeroPattern.cover μ) d).zeroPattern.IsZero i j := by
  have hj := hi.markedCol hz
  apply isZero_adjustBy_of_single hz
  · rw [Bool.eq_false_iff, Ne, ZeroPattern.isUncovered_cover_iff]
    exact fun h => h.2.2.2 hj
  · rw [Bool.eq_false_iff, Ne, ZeroPattern.isDoublyCovered_cover_iff]
    exact fun h => h.2.1 hi

/-- A zero of an unmarked column stays a zero. -/
theorem isZero_adjustBy_of_not_markedCol {i j : Nat} (hj : ¬ g.zeroPattern.MarkedCol μ j)
    (hz : g.zeroPattern.IsZero i j) :
    (g.adjustBy (g.zeroPattern.cover μ) d).zeroPattern.IsZero i j := by
  apply isZero_adjustBy_of_single hz
  · rw [Bool.eq_false_iff, Ne, ZeroPattern.isUncovered_cover_iff]
    exact fun h => hj (h.2.2.1.markedCol hz)
  · rw [Bool.eq_false_iff, Ne, ZeroPattern.isDoublyCovered_cover_iff]
    exact fun h => hj h.2.2

/-- A pair stays a zero. -/
theorem isZero_adjustBy_of_pair (hμ : g.zeroPattern.Matches μ) {i j : Nat}
    (hij : μ.col? i = some j) :
    (g.adjustBy (g.zeroPattern.cover μ) d).zeroPattern.IsZero i j := by
  have hz := hμ.isZero i j hij
  by_cases hi : g.zeroPattern.Marked μ i
  · exact isZero_adjustBy_of_marked hi hz
  · have hj := fun h => hi ((ZeroPattern.marked_iff_markedCol hμ.consistent hij).mpr h)
    exact isZero_adjustBy_of_not_markedCol hj hz

/-- The matching that the lines were read off is a matching of zeros still. -/
theorem matches_adjustBy (hμ : g.zeroPattern.Matches μ) :
    (g.adjustBy (g.zeroPattern.cover μ) d).zeroPattern.Matches μ where
  nrows_eq := by simpa using hμ.nrows_eq
  ncols_eq := by simpa using hμ.ncols_eq
  consistent := hμ.consistent
  isZero _ _ hij := isZero_adjustBy_of_pair hμ hij

/-- What was marked stays marked. -/
theorem marked_adjustBy {i : Nat} (hi : g.zeroPattern.Marked μ i) :
    (g.adjustBy (g.zeroPattern.cover μ) d).zeroPattern.Marked μ i := by
  induction hi with
  | root hroot =>
    refine .root (ZeroPattern.mem_unpairedRows.mpr ?_)
    simpa using ZeroPattern.mem_unpairedRows.mp hroot
  | step hi hz hrow ih => exact .step ih (isZero_adjustBy_of_marked hi hz) hrow

theorem markedCol_adjustBy {j : Nat} (hj : g.zeroPattern.MarkedCol μ j) :
    (g.adjustBy (g.zeroPattern.cover μ) d).zeroPattern.MarkedCol μ j := by
  obtain ⟨i, hi, hz⟩ := hj
  exact ⟨i, marked_adjustBy hi, isZero_adjustBy_of_marked hi hz⟩

/-- While a maximum matching of a square grid is incomplete, some cell is on no line. -/
theorem exists_isUncovered (hsq : g.nrows = g.ncols) (hμ : g.zeroPattern.IsMaximum μ)
    (hinc : μ.isComplete = false) :
    ∃ i j, (g.zeroPattern.cover μ).isUncovered i j = true := by
  have hlt : μ.size < g.nrows := by simpa using hμ.size_lt hinc
  obtain ⟨i, hi, hnone⟩ := hμ.exists_unpaired hinc
  -- There are fewer lines than columns, so a column is left; an unpaired row is never a line.
  obtain ⟨j, hj, hnot⟩ : ∃ j < g.ncols, j ∉ (g.zeroPattern.cover μ).colSet := by
    by_contra hall
    push Not at hall
    have hsub : Finset.range g.ncols ⊆ (g.zeroPattern.cover μ).colSet :=
      fun j hj => hall j (Finset.mem_range.mp hj)
    have hcard := Finset.card_le_card hsub
    have hsize := LineCover.size_eq_card (g.zeroPattern.cover μ)
    rw [hμ.size_cover] at hsize
    rw [Finset.card_range] at hcard
    omega
  refine ⟨i, j, ZeroPattern.isUncovered_cover_iff.mpr
    ⟨hi, by simpa using hj, ?_, ?_⟩⟩
  · exact .root (ZeroPattern.mem_unpairedRows.mpr ⟨hi, hnone⟩)
  · exact fun h => hnot (ZeroPattern.mem_colSet_cover.mpr h)

section Exact

variable [Scalar.ExactNearZero K]

open Scalar

/-- The value that is found is the lowest one on no line. -/
theorem lowest_of_minUncovered (h : g.minUncovered lines = .ok d) : g.Lowest lines d := by
  obtain ⟨hleast, hpos, _⟩ := minUncovered_eq_ok_iff.mp h
  have hne : g.uncovered lines ≠ [] := by
    intro hnil
    rw [hnil, least?_nil] at hleast
    cases hleast
  obtain ⟨e, he, hmem, hmin⟩ := least?_spec hne
  obtain rfl : e = d := Option.some.inj (he.symm.trans hleast)
  refine ⟨hpos, ?_, mem_uncovered.mp hmem⟩
  show ∀ i j v, g.cell? i j = some v → lines.isUncovered i j = true → ¬ v < e
  intro i j v hv hunc
  exact hmin v (mem_uncovered.mpr ⟨i, j, hv, hunc⟩)

/-- When some cell is on no line and all such cells are positive, a value is found. -/
theorem exists_minUncovered
    (hpos : ∀ i j v, g.cell? i j = some v → lines.isUncovered i j = true → 0 < v)
    (hex : ∃ i j v, g.cell? i j = some v ∧ lines.isUncovered i j = true) :
    ∃ d, g.minUncovered lines = .ok d := by
  obtain ⟨i, j, v, hv, hunc⟩ := hex
  have hne : g.uncovered lines ≠ [] :=
    List.ne_nil_of_mem (mem_uncovered.mpr ⟨i, j, hv, hunc⟩)
  obtain ⟨d, hd, hmem, _⟩ := least?_spec hne
  obtain ⟨i', j', hd', hunc'⟩ := mem_uncovered.mp hmem
  exact ⟨d, minUncovered_eq_ok_iff.mpr
    ⟨hd, hpos i' j' d hd' hunc', ExactNearZero.isFinite d⟩⟩

/-! ## Values after an adjustment -/

/-- Adjusting leaves no negative cell. -/
theorem Lowest.nonneg_adjustBy (hd : g.Lowest lines d)
    (hg : ∀ i j v, g.cell? i j = some v → ¬ v < 0) {i j : Nat} {v : K}
    (hv : (g.adjustBy lines d).cell? i j = some v) : ¬ v < 0 := by
  rw [cell?_adjustBy] at hv
  obtain ⟨w, hw, rfl⟩ := Option.map_eq_some_iff.mp hv
  split
  · next hunc => exact ExactNearZero.sub_nonneg (hd.le i j w hw hunc)
  · split
    · exact ExactNearZero.lt_asymm (ExactNearZero.add_pos (hg i j w hw) hd.pos)
    · exact hg i j w hw

/-- The smallest cells on no line become zeros. -/
theorem Lowest.exists_new_zero (hd : g.Lowest lines d) :
    ∃ i j, lines.isUncovered i j = true ∧ (g.adjustBy lines d).zeroPattern.IsZero i j := by
  obtain ⟨i, j, hij, hunc⟩ := hd.attained
  refine ⟨i, j, hunc, (isZero_zeroPattern_iff ..).mpr ⟨d - d, ?_, ?_⟩⟩
  · rw [cell?_adjustBy, hij, Option.map_some, if_pos hunc]
  · have hle := hd.le i j d hij hunc
    exact (ExactNearZero.isZero_sub_iff hle).mpr hle

/-! ## Adjusting to the lines of a maximum matching -/

/-- **Adjusting a reduced grid leaves it reduced.** -/
theorem IsReduced.adjustBy (hg : g.IsReduced) (hμ : g.zeroPattern.Matches μ)
    (hd : g.Lowest (g.zeroPattern.cover μ) d) :
    (g.adjustBy (g.zeroPattern.cover μ) d).IsReduced where
  nonneg _ _ _ hv := hd.nonneg_adjustBy hg.nonneg hv
  row_zero := by
    intro i hi
    have hi : i < g.nrows := by simpa using hi
    by_cases hmarked : g.zeroPattern.Marked μ i
    · obtain ⟨j, hj⟩ := hg.row_zero i hi
      exact ⟨j, isZero_adjustBy_of_marked hmarked hj⟩
    · -- An unmarked row is paired, and its pair stays.
      have hrow := ZeroPattern.rowSet_cover_subset _ _
        (ZeroPattern.mem_rowSet_cover.mpr ⟨by simpa using hi, hmarked⟩)
      obtain ⟨j, hj⟩ := Matching.mem_pairedRows.mp hrow
      exact ⟨j, isZero_adjustBy_of_pair hμ hj⟩
  col_zero := by
    intro j hj
    by_cases hmarked : g.zeroPattern.MarkedCol μ j
    · obtain ⟨i, hi, hz⟩ := hmarked
      exact ⟨i, isZero_adjustBy_of_marked hi hz⟩
    · -- The zeros of an unmarked column lie in unmarked rows, which are lines.
      obtain ⟨i, hi⟩ := hg.col_zero j (by simpa using hj)
      exact ⟨i, isZero_adjustBy_of_not_markedCol hmarked hi⟩

/-- A column that was not marked is marked now. -/
theorem Lowest.exists_new_markedCol (hd : g.Lowest (g.zeroPattern.cover μ) d) :
    ∃ j, ¬ g.zeroPattern.MarkedCol μ j ∧
      (g.adjustBy (g.zeroPattern.cover μ) d).zeroPattern.MarkedCol μ j := by
  obtain ⟨i, j, hunc, hz⟩ := hd.exists_new_zero
  obtain ⟨_, _, hi, hj⟩ := ZeroPattern.isUncovered_cover_iff.mp hunc
  exact ⟨j, hj, i, marked_adjustBy hi, hz⟩

/-- **The lines advance**: if no larger matching can be found after an adjustment, more columns
    and fewer rows are chosen as lines, whatever maximum matching they are read off. -/
theorem Lowest.lines_advance (hμ : g.zeroPattern.IsMaximum μ)
    (hd : g.Lowest (g.zeroPattern.cover μ) d) {ν : Matching}
    (hν : (g.adjustBy (g.zeroPattern.cover μ) d).zeroPattern.IsMaximum ν)
    (hsize : ν.size ≤ μ.size) :
    (g.zeroPattern.cover μ).colSet ⊂
        ((g.adjustBy (g.zeroPattern.cover μ) d).zeroPattern.cover ν).colSet ∧
      ((g.adjustBy (g.zeroPattern.cover μ) d).zeroPattern.cover ν).rowSet ⊂
        (g.zeroPattern.cover μ).rowSet := by
  -- The old matching is maximum still, so the lines may be read off it.
  have hmax : (g.adjustBy (g.zeroPattern.cover μ) d).zeroPattern.IsMaximum μ :=
    { toMatches := matches_adjustBy hμ.toMatches
      card_le := fun cells hcells => (hν.card_le cells hcells).trans hsize }
  have hsum := (hμ.size_cover.trans hmax.size_cover.symm)
  rw [LineCover.size_eq_card, LineCover.size_eq_card] at hsum
  rw [← hmax.cover_eq hν]
  have hcols : (g.zeroPattern.cover μ).colSet ⊂
      ((g.adjustBy (g.zeroPattern.cover μ) d).zeroPattern.cover μ).colSet := by
    rw [Finset.ssubset_iff_of_subset]
    · -- The new zero marks a column, and what was marked stays so.
      obtain ⟨j, hold, hnew⟩ := hd.exists_new_markedCol
      exact ⟨j, ZeroPattern.mem_colSet_cover.mpr hnew,
        fun h => hold (ZeroPattern.mem_colSet_cover.mp h)⟩
    · intro j hj
      exact ZeroPattern.mem_colSet_cover.mpr
        (markedCol_adjustBy (ZeroPattern.mem_colSet_cover.mp hj))
  have hrows : ((g.adjustBy (g.zeroPattern.cover μ) d).zeroPattern.cover μ).rowSet ⊆
      (g.zeroPattern.cover μ).rowSet := by
    intro i hi
    obtain ⟨hlt, hnot⟩ := ZeroPattern.mem_rowSet_cover.mp hi
    exact ZeroPattern.mem_rowSet_cover.mpr ⟨by simpa using hlt, fun h => hnot (marked_adjustBy h)⟩
  -- There are as many lines as before and more columns among them, so there are fewer rows.
  have hlt := Finset.card_lt_card hcols
  refine ⟨hcols, hrows.ssubset_of_ne fun heq => ?_⟩
  rw [heq] at hsum
  omega

/-- **An adjustment makes progress**: the largest matching grows, or more columns are chosen as
    lines, whatever maximum matching is found afterwards. -/
theorem adjustBy_progress (hμ : g.zeroPattern.IsMaximum μ)
    (hd : g.Lowest (g.zeroPattern.cover μ) d) {ν : Matching}
    (hν : (g.adjustBy (g.zeroPattern.cover μ) d).zeroPattern.IsMaximum ν) :
    μ.size < ν.size ∨
      (μ.size = ν.size ∧ (g.zeroPattern.cover μ).colSet ⊂
        ((g.adjustBy (g.zeroPattern.cover μ) d).zeroPattern.cover ν).colSet) := by
  rcases Nat.lt_or_ge μ.size ν.size with hlt | hge
  · exact .inl hlt
  · have hle := hν.size_le (matches_adjustBy hμ.toMatches)
    exact .inr ⟨Nat.le_antisymm hle hge, (hd.lines_advance hμ hν hge).1⟩

/-! ## There is always a value to adjust by -/

/-- Where no cell is negative, a cell on no line of the cover is positive. -/
theorem pos_of_isUncovered (hg : ∀ i j v, g.cell? i j = some v → ¬ v < 0) {i j : Nat} {v : K}
    (hv : g.cell? i j = some v) (hunc : (g.zeroPattern.cover μ).isUncovered i j = true) :
    0 < v := by
  by_contra hpos
  have hz : g.zeroPattern.IsZero i j := (isZero_zeroPattern_iff ..).mpr
    ⟨v, hv, (ExactNearZero.isZero_iff v).mpr ⟨hg i j v hv, hpos⟩⟩
  obtain ⟨_, _, hi, hj⟩ := ZeroPattern.isUncovered_cover_iff.mp hunc
  exact hj (hi.markedCol hz)

/-- **While the matching is incomplete there is a value to adjust by**, if no cell of the square
    grid is negative. -/
theorem exists_minUncovered_cover (hg : ∀ i j v, g.cell? i j = some v → ¬ v < 0)
    (hsq : g.nrows = g.ncols) (hμ : g.zeroPattern.IsMaximum μ)
    (hinc : μ.isComplete = false) : ∃ d, g.minUncovered (g.zeroPattern.cover μ) = .ok d := by
  obtain ⟨i, j, hunc⟩ := exists_isUncovered hsq hμ hinc
  obtain ⟨hi, hj, _⟩ := ZeroPattern.isUncovered_cover_iff.mp hunc
  obtain ⟨v, hv⟩ := g.exists_cell? (by simpa using hi) (by simpa using hj)
  exact exists_minUncovered (fun _ _ _ hw hu => pos_of_isUncovered hg hw hu) ⟨i, j, v, hv, hunc⟩

end Exact

end Grid

end LinearAssignment
