import LinearAssignment.Proofs.FloatUnits
import LinearAssignment.Proofs.Replay
import LinearAssignment.Proofs.Scaling
import LinearAssignment.Proofs.Validation

/-! # The complement of an accepted matrix is accepted

    The distances from a largest value lie between zero and the span of the values.  Exact
    distances do, and rounding keeps the order, so those of floats do as well: no distance
    overflows when the span does not, and the span and the distances from zero of the complement
    are at most the span of the matrix.

    * `Scalar.RangeClosed`: what this needs of a number type; floats and rationals have it.
    * `CostMatrix.exists_complement`: the complement is a cost matrix. -/

namespace LinearAssignment

namespace Scalar

/-- A number type in which distances are in the order of the values, and in which no distance
    leaves the range of the values. -/
class RangeClosed (K : Type) [Scalar K] : Prop extends Ordered K where
  isFinite_sub {v w top : K} : isFinite v = true → isFinite w = true → isFinite top = true →
    ¬ w < v → ¬ top < w → isFinite (top - v) = true → isFinite (top - w) = true
  not_sub_lt_sub {v w top : K} : isFinite v = true → isFinite w = true → isFinite top = true →
    ¬ w < v → ¬ top < w → isFinite (top - v) = true → ¬ top - v < top - w
  inRange_sub {lo top : K} {dim : Nat} : isFinite lo = true → isFinite top = true → ¬ top < lo →
    inRange lo top dim = true → inRange (top - top) (top - lo) dim = true

/-! ## Rationals -/

instance : RangeClosed Rat where
  isFinite_sub _ _ _ _ _ _ := rfl
  not_sub_lt_sub _ _ _ h _ _ := by
    rw [not_lt] at h ⊢
    exact sub_le_sub_left h _
  inRange_sub _ _ _ _ := rfl

end Scalar

/-! ## Floats -/

namespace FloatRounding

open Scalar FloatOrder

variable {x y z : Float}

theorem unitsOf_le_iff (hx : isFinite x = true) (hy : isFinite y = true) :
    unitsOf x ≤ unitsOf y ↔ ¬ y < x := by
  rw [lt_iff_unitsOf_lt hy hx, not_lt]

/-- Rounding keeps the order of distances. -/
theorem rounded_sub_le (h : unitsOf x ≤ unitsOf y) :
    rounded 0 (unitsOf z - unitsOf y).toNat ≤ rounded 0 (unitsOf z - unitsOf x).toNat :=
  rounded_mono 0 (by omega)

theorem isFinite_sub_of_le (hx : isFinite x = true) (hy : isFinite y = true)
    (hz : isFinite z = true) (hxy : unitsOf x ≤ unitsOf y) (hyz : unitsOf y ≤ unitsOf z)
    (h : isFinite (z - x) = true) : isFinite (z - y) = true := by
  rw [isFinite_sub_iff hz hx (hxy.trans hyz)] at h
  rw [isFinite_sub_iff hz hy hyz]
  exact (rounded_sub_le hxy).trans_lt h

theorem unitsOf_sub_le (hx : isFinite x = true) (hy : isFinite y = true)
    (hz : isFinite z = true) (hxy : unitsOf x ≤ unitsOf y) (hyz : unitsOf y ≤ unitsOf z)
    (h : isFinite (z - x) = true) : unitsOf (z - y) ≤ unitsOf (z - x) := by
  have hfinite := isFinite_sub_of_le hx hy hz hxy hyz h
  rw [unitsOf_sub hz hx (hxy.trans hyz) h, unitsOf_sub hz hy hyz hfinite]
  exact_mod_cast rounded_sub_le hxy

theorem unitsOf_sub_nonneg (hx : isFinite x = true) (hz : isFinite z = true)
    (hxz : unitsOf x ≤ unitsOf z) (h : isFinite (z - x) = true) : 0 ≤ unitsOf (z - x) := by
  rw [unitsOf_sub hz hx hxz h]
  exact Int.natCast_nonneg _

/-- Taking away nothing changes nothing, whichever zero nothing is. -/
theorem isFinite_sub_zero (hx : isFinite x = true) (hy : isFinite y = true)
    (hpos : 0 ≤ unitsOf x) (hzero : unitsOf y = 0) :
    isFinite (x - y) = true ∧ unitsOf (x - y) = unitsOf x := by
  have hle : unitsOf y ≤ unitsOf x := hzero ▸ hpos
  have hkept : (rounded 0 (unitsOf x - unitsOf y).toNat : Int) = unitsOf x := by
    have hsame : (unitsOf x - unitsOf y).toNat = (unitsOf x).natAbs := by omega
    rw [hsame, unitsOf, rounded_units (isRounded_of_isFinite hx)]
    exact Int.natAbs_of_nonneg hpos
  have hfinite : isFinite (x - y) = true := by
    rw [isFinite_sub_iff hx hy hle]
    have := natAbs_unitsOf_lt hx
    omega
  exact ⟨hfinite, (unitsOf_sub hx hy hle hfinite).trans hkept⟩

theorem isFinite_zero : isFinite (0 : Float) = true := by decide +kernel

theorem unitsOf_zero : unitsOf 0 = 0 := by decide +kernel

/-- The distance of a finite float from zero is finite. -/
theorem isFinite_magnitude (hx : isFinite x = true) : isFinite (magnitude x) = true := by
  unfold magnitude
  split_ifs with hneg
  · rw [lt_iff_unitsOf_lt hx isFinite_zero, unitsOf_zero] at hneg
    rw [isFinite_sub_iff isFinite_zero hx (by rw [unitsOf_zero]; omega), unitsOf_zero]
    have hsame : (0 - unitsOf x).toNat = (unitsOf x).natAbs := by omega
    rw [hsame, unitsOf, rounded_units (isRounded_of_isFinite hx)]
    exact natAbs_unitsOf_lt hx
  · exact hx

theorem magnitude_of_nonneg (hx : isFinite x = true) (h : 0 ≤ unitsOf x) : magnitude x = x := by
  rw [magnitude, if_neg]
  rw [lt_iff_unitsOf_lt hx isFinite_zero, unitsOf_zero]
  omega

theorem unitsOf_larger (hx : isFinite x = true) (hy : isFinite y = true) :
    isFinite (larger x y) = true ∧ unitsOf (larger x y) = max (unitsOf x) (unitsOf y) := by
  unfold larger
  split_ifs with h
  · rw [lt_iff_unitsOf_lt hx hy] at h
    exact ⟨hy, (max_eq_right h.le).symm⟩
  · rw [← unitsOf_le_iff hy hx] at h
    exact ⟨hx, (max_eq_left h).symm⟩

/-- A factor of smaller magnitude gives a finite product where a larger one does. -/
theorem isFinite_mul_of_le (hx : isFinite x = true) (h : isFinite (y * z) = true)
    (hle : (unitsOf x).natAbs ≤ (unitsOf y).natAbs) :
    isFinite (x * z) = true ∧ (unitsOf (x * z)).natAbs ≤ (unitsOf (y * z)).natAbs := by
  obtain ⟨hy, hz⟩ := isFinite_of_isFinite_mul h
  have hrounded := rounded_mono 1074 (Nat.mul_le_mul_right (unitsOf z).natAbs hle)
  have hfinite : isFinite (x * z) = true := by
    rw [isFinite_mul_iff hx hz]
    exact hrounded.trans_lt ((isFinite_mul_iff hy hz).mp h)
  refine ⟨hfinite, ?_⟩
  rw [natAbs_unitsOf_mul hx hz hfinite, natAbs_unitsOf_mul hy hz h]
  exact hrounded

/-- **The range of the distances is no larger than that of the values.** -/
theorem inRange_distances {lo top : Float} {dim : Nat} (hlo : isFinite lo = true)
    (htop : isFinite top = true) (hle : unitsOf lo ≤ unitsOf top)
    (h : inRange lo top dim = true) : inRange (top - top) (top - lo) dim = true := by
  unfold inRange at h ⊢
  rw [Bool.and_eq_true] at h ⊢
  obtain ⟨hspan, hbound⟩ := h
  have hspan_nonneg := unitsOf_sub_nonneg hlo htop hle hspan
  have hself : isFinite (top - top) = true :=
    isFinite_sub_of_le hlo htop htop hle le_rfl hspan
  have hself_zero : unitsOf (top - top) = 0 := by
    rw [unitsOf_sub htop htop le_rfl hself, sub_self, Int.toNat_zero, rounded_zero]
    rfl
  obtain ⟨hkept, hkept_units⟩ := isFinite_sub_zero hspan hself hspan_nonneg hself_zero
  -- The reach of the distances is their span, and that of the values is no smaller.
  have hreach : isFinite (reach (top - top) (top - lo)) = true ∧
      unitsOf (reach (top - top) (top - lo)) = unitsOf (top - lo) := by
    rw [reach, magnitude_of_nonneg hself hself_zero.ge, magnitude_of_nonneg hspan hspan_nonneg]
    obtain ⟨hinner, hinner_units⟩ := unitsOf_larger hkept hself
    obtain ⟨houter, houter_units⟩ := unitsOf_larger hinner hspan
    exact ⟨houter, by omega⟩
  have hreach_le : unitsOf (top - lo) ≤ unitsOf (reach lo top) := by
    obtain ⟨hinner, hinner_units⟩ := unitsOf_larger hspan (isFinite_magnitude hlo)
    obtain ⟨_, houter_units⟩ := unitsOf_larger hinner (isFinite_magnitude htop)
    rw [reach]
    omega
  obtain ⟨hdouble, _⟩ := isFinite_of_isFinite_mul hbound
  have hdouble' := isFinite_mul_of_le hreach.1 hdouble (by omega)
  exact ⟨hkept, (isFinite_mul_of_le hdouble'.1 hbound hdouble'.2).1⟩

instance : RangeClosed Float where
  isFinite_sub hv hw htop hvw hwtop h :=
    isFinite_sub_of_le hv hw htop ((unitsOf_le_iff hv hw).mpr hvw)
      ((unitsOf_le_iff hw htop).mpr hwtop) h
  not_sub_lt_sub hv hw htop hvw hwtop h := by
    have hle := (unitsOf_le_iff hv hw).mpr hvw
    have hle' := (unitsOf_le_iff hw htop).mpr hwtop
    rw [← unitsOf_le_iff (isFinite_sub_of_le hv hw htop hle hle' h) h]
    exact unitsOf_sub_le hv hw htop hle hle' h
  inRange_sub hlo htop hle h := inRange_distances hlo htop ((unitsOf_le_iff hlo htop).mpr hle) h

end FloatRounding

/-! ## Matrices -/

section Complement

open Scalar

variable {K : Type} [Scalar K] [RangeClosed K]

/-- **Values in range have distances in range**, and all of these are finite. -/
theorem Scalar.rangeFault?_distances {values : List K} {top : K} {dim : Nat}
    (hfinite : ∀ v ∈ values, isFinite v = true) (htop : greatest? values = some top)
    (hrange : rangeFault? values dim = none) :
    (∀ d ∈ values.map (top - ·), isFinite d = true) ∧
      rangeFault? (values.map (top - ·)) dim = none := by
  have hnum : ∀ v ∈ values, isNumber v = true :=
    fun v hv => Ordered.isNumber_of_isFinite (hfinite v hv)
  have hne : values ≠ [] := by
    rintro rfl
    cases htop
  have hlarge : IsLargest values top := by
    obtain ⟨top', htop', hlarge⟩ := exists_greatest? hnum hne
    rw [htop] at htop'
    exact Option.some.inj htop' ▸ hlarge
  obtain ⟨lo, hi, hlo, hhi, hfault⟩ := exists_rangeFault?_eq hfinite hne dim
  -- The largest value found may be another one of several that tie; the test does not tell
  -- them apart.
  have hin : inRange lo top dim = true := by
    rw [hrange] at hfault
    rw [Ordered.inRange_congr dim (hnum lo hlo.mem) (hnum lo hlo.mem) (hnum top hlarge.mem)
      (hnum hi hhi.mem) (hlo.tied hlo) (hlarge.tied hhi)]
    by_contra hout
    rw [if_neg hout] at hfault
    cases hfault
  have hlofinite := hfinite lo hlo.mem
  have htopfinite := hfinite top hlarge.mem
  have hspan : isFinite (top - lo) = true := (Bool.and_eq_true_iff.mp hin).1
  have hdistance : ∀ v ∈ values, isFinite (top - v) = true := fun v hv =>
    RangeClosed.isFinite_sub hlofinite (hfinite v hv) htopfinite (hlo.not_lt v hv)
      (hlarge.not_lt v hv) hspan
  have hfinite' : ∀ d ∈ values.map (top - ·), isFinite d = true :=
    List.forall_mem_map.mpr hdistance
  -- The distances lie between that of the largest value and that of the smallest one.
  have hsmall' : IsSmallest (values.map (top - ·)) (top - top) :=
    ⟨List.mem_map_of_mem hlarge.mem, List.forall_mem_map.mpr fun v hv =>
      RangeClosed.not_sub_lt_sub (hfinite v hv) htopfinite htopfinite (hlarge.not_lt v hv)
        (Scalar.lt_irrefl top) (hdistance v hv)⟩
  have hlarge' : IsLargest (values.map (top - ·)) (top - lo) :=
    ⟨List.mem_map_of_mem hlo.mem, List.forall_mem_map.mpr fun v hv =>
      RangeClosed.not_sub_lt_sub hlofinite (hfinite v hv) htopfinite (hlo.not_lt v hv)
        (hlarge.not_lt v hv) hspan⟩
  have hin' := RangeClosed.inRange_sub hlofinite htopfinite (hlarge.not_lt lo hlo.mem) hin
  -- Nor does it for the extremes of the distances.
  obtain ⟨lo', hi', hlo', hhi', hfault'⟩ :=
    exists_rangeFault?_eq hfinite' (mt List.map_eq_nil_iff.mp hne) dim
  refine ⟨hfinite', ?_⟩
  rw [hfault', if_pos]
  by_contra hout
  rw [Bool.not_eq_true, inRange_eq_false_iff,
    outOfRange_congr hfinite' hlo' hsmall' hhi' hlarge', ← inRange_eq_false_iff, hin'] at hout
  cases hout

/-- **The complement of a cost matrix is a cost matrix.** -/
theorem CostMatrix.exists_complement (a : CostMatrix K) :
    ∃ b : CostMatrix K, b.toGrid = a.complement := by
  obtain ⟨top, htop, hcomplement⟩ := a.exists_complement_eq
  obtain ⟨hfinite, hrange⟩ := rangeFault?_distances a.finite_cells htop a.in_range
  have hflat : a.complement.rows.flatten = a.rows.flatten.map (top - ·) := by
    rw [hcomplement]
    exact Grid.cells_map ..
  have hlength : a.complement.rows.length = a.rows.length := a.toGrid.nrows_complement
  refine ⟨⟨a.complement, ?_, ?_, ?_, ?_⟩, rfl⟩
  · rw [← List.length_pos_iff, hlength]
    exact a.nrows_pos
  · rw [Grid.ncols_complement]
    exact a.ncols_pos
  · intro row hrow v hv
    exact hfinite v (hflat ▸ List.mem_flatten.mpr ⟨row, hrow, hv⟩)
  · rw [hflat, hlength, Grid.ncols_complement]
    exact hrange

end Complement

end LinearAssignment
