import Mathlib.Algebra.Order.Field.Rat
import Mathlib.Tactic.Linarith
import LinearAssignment.Complement
import LinearAssignment.Proofs.ScalarOrder
import LinearAssignment.Scalar.Instances

/-! # Scalars that are exact near zero

    The method rests on few facts of arithmetic.  Subtracting from a value one that is no
    larger must not fall below zero, and must reach zero exactly when the two do not differ
    in order; adding a positive value to a non-negative one must stay positive.

    * `Scalar.ExactNearZero`: these laws; the rationals obey them, and they make an order.
    * `Scalar.least?_spec`, `Scalar.greatest?_spec`: the extremes of a list.
    * `Scalar.least?_eq_some_iff`, `Scalar.greatest?_eq_some_iff`: the same for rationals.
    * `Scalar.least?_map`, `Scalar.greatest?_map`: an increasing rule carries them along.
    * `Grid.mem_cells`, `Grid.mem_column`: the values of a grid by their positions. -/

namespace LinearAssignment

namespace Scalar

/-- A number type without invalid values whose arithmetic is exact near zero. -/
class ExactNearZero (K : Type) [Scalar K] : Prop where
  isNumber (v : K) : isNumber v = true
  isFinite (v : K) : isFinite v = true
  lt_asymm {a b : K} : a < b → ¬ b < a
  lt_or_lt {a b : K} (c : K) : a < b → a < c ∨ c < b
  isZero_iff (v : K) : isZero v = true ↔ ¬ v < 0 ∧ ¬ 0 < v
  sub_nonneg {v d : K} : ¬ v < d → ¬ v - d < 0
  isZero_sub_iff {v d : K} : ¬ v < d → (isZero (v - d) = true ↔ ¬ d < v)
  add_pos {v d : K} : ¬ v < 0 → 0 < d → 0 < v + d

/-! ## The rationals -/

theorem isZero_rat (v : Rat) : isZero v = true ↔ v = 0 := by
  rw [isZero, beq_iff_eq]

instance : ExactNearZero Rat where
  isNumber v := beq_self_eq_true v
  isFinite _ := rfl
  lt_asymm := lt_asymm
  lt_or_lt {a _} c h := (lt_or_ge a c).imp_right fun hle => hle.trans_lt h
  isZero_iff v := by
    rw [isZero_rat, not_lt, not_lt]
    exact ⟨fun h => ⟨h.ge, h.le⟩, fun h => le_antisymm h.2 h.1⟩
  sub_nonneg h := by
    rw [not_lt] at h ⊢
    exact sub_nonneg.mpr h
  isZero_sub_iff h := by
    rw [not_lt] at h
    rw [isZero_rat, sub_eq_zero, not_lt]
    exact ⟨fun heq => heq.le, fun hle => le_antisymm hle h⟩
  add_pos h hd := by
    rw [not_lt] at h
    exact add_pos_of_nonneg_of_pos h hd

/-- Exact sums do not depend on where the adding starts. -/
theorem total_rat (values : List Rat) : total values = values.sum := by
  cases values with
  | nil => rfl
  | cons v vs =>
    rw [total]
    induction vs generalizing v with
    | nil => simp
    | cons w vs ih =>
      rw [List.foldl_cons, ih, List.sum_cons, List.sum_cons, List.sum_cons, add_assoc]

section Exact

variable {K : Type} [Scalar K] [ExactNearZero K]

/-- Values that are exact near zero are ordered, and none of them is out of range. -/
instance (priority := low) : Ordered K where
  isNumber_of_isFinite _ := ExactNearZero.isNumber _
  lt_asymm := ExactNearZero.lt_asymm
  lt_or_lt _ h := ExactNearZero.lt_or_lt _ h
  inRange_congr _ _ _ _ _ _ _ := by simp [inRange, ExactNearZero.isFinite]

theorem not_lt_trans {a b c : K} (h : ¬ b < a) (h' : ¬ c < b) : ¬ c < a :=
  not_lt_trans_of_isNumber (ExactNearZero.isNumber b) h h'

/-! ## Extremes of a list -/

/-- A list with a value has a smallest one: it is in the list, and nothing is below it. -/
theorem least?_spec {values : List K} (h : values ≠ []) :
    ∃ d, least? values = some d ∧ d ∈ values ∧ ∀ v ∈ values, ¬ v < d := by
  obtain ⟨d, hd, hsmall⟩ := exists_least? (fun v _ => ExactNearZero.isNumber v) h
  exact ⟨d, hd, hsmall.mem, hsmall.not_lt⟩

/-- A list with a value has a largest one: it is in the list, and nothing is above it. -/
theorem greatest?_spec {values : List K} (h : values ≠ []) :
    ∃ d, greatest? values = some d ∧ d ∈ values ∧ ∀ v ∈ values, ¬ d < v := by
  obtain ⟨d, hd, hlarge⟩ := exists_greatest? (fun v _ => ExactNearZero.isNumber v) h
  exact ⟨d, hd, hlarge.mem, hlarge.not_lt⟩

end Exact

/-- Rationals neither of which is below the other are one number, so the smallest value of a
    list of them is determined. -/
theorem least?_eq_some_iff {values : List Rat} {d : Rat} :
    least? values = some d ↔ d ∈ values ∧ ∀ v ∈ values, d ≤ v := by
  by_cases hne : values = []
  · simp [hne]
  · obtain ⟨e, he, hmem, hmin⟩ := least?_spec hne
    rw [he, Option.some_inj]
    constructor
    · rintro rfl
      exact ⟨hmem, fun v hv => not_lt.mp (hmin v hv)⟩
    · intro hd
      exact le_antisymm (not_lt.mp (hmin d hd.1)) (hd.2 e hmem)

theorem greatest?_eq_some_iff {values : List Rat} {d : Rat} :
    greatest? values = some d ↔ d ∈ values ∧ ∀ v ∈ values, v ≤ d := by
  by_cases hne : values = []
  · simp [hne]
  · obtain ⟨e, he, hmem, hmax⟩ := greatest?_spec hne
    rw [he, Option.some_inj]
    constructor
    · rintro rfl
      exact ⟨hmem, fun v hv => not_lt.mp (hmax v hv)⟩
    · intro hd
      exact le_antisymm (hd.2 e hmem) (not_lt.mp (hmax d hd.1))

/-- A strictly increasing rule carries the smallest value of a list along. -/
theorem least?_map {f : Rat → Rat} (hf : StrictMono f) (values : List Rat) :
    least? (values.map f) = (least? values).map f := by
  refine Option.ext fun d => ?_
  simp only [least?_eq_some_iff, Option.map_eq_some_iff, List.mem_map, forall_exists_index,
    and_imp, forall_apply_eq_imp_iff₂]
  constructor
  · rintro ⟨⟨v, hv, rfl⟩, hmin⟩
    exact ⟨v, ⟨hv, fun w hw => hf.le_iff_le.mp (hmin w hw)⟩, rfl⟩
  · rintro ⟨v, ⟨hv, hmin⟩, rfl⟩
    exact ⟨⟨v, hv, rfl⟩, fun w hw => hf.le_iff_le.mpr (hmin w hw)⟩

/-- It carries the largest value along too. -/
theorem greatest?_map {f : Rat → Rat} (hf : StrictMono f) (values : List Rat) :
    greatest? (values.map f) = (greatest? values).map f := by
  refine Option.ext fun d => ?_
  simp only [greatest?_eq_some_iff, Option.map_eq_some_iff, List.mem_map, forall_exists_index,
    and_imp, forall_apply_eq_imp_iff₂]
  constructor
  · rintro ⟨⟨v, hv, rfl⟩, hmax⟩
    exact ⟨v, ⟨hv, fun w hw => hf.le_iff_le.mp (hmax w hw)⟩, rfl⟩
  · rintro ⟨v, ⟨hv, hmax⟩, rfl⟩
    exact ⟨⟨v, hv, rfl⟩, fun w hw => hf.le_iff_le.mpr (hmax w hw)⟩

end Scalar

namespace Grid

variable {K : Type}

/-! ## Values by position -/

theorem exists_cell? (g : Grid K) {i j : Nat} (hi : i < g.nrows) (hj : j < g.ncols) :
    ∃ v, g.cell? i j = some v :=
  Option.isSome_iff_exists.mp ((g.cell?_isSome_iff i j).mpr ⟨hi, hj⟩)

theorem lt_nrows_of_cell? {g : Grid K} {i j : Nat} {v : K} (h : g.cell? i j = some v) :
    i < g.nrows :=
  ((g.cell?_isSome_iff i j).mp (by simp [h])).1

theorem lt_ncols_of_cell? {g : Grid K} {i j : Nat} {v : K} (h : g.cell? i j = some v) :
    j < g.ncols :=
  ((g.cell?_isSome_iff i j).mp (by simp [h])).2

theorem cell?_eq_some_iff {g : Grid K} {i j : Nat} {v : K} :
    g.cell? i j = some v ↔ ∃ row, g.rows[i]? = some row ∧ row[j]? = some v :=
  Option.bind_eq_some_iff

theorem mem_cells {g : Grid K} {v : K} : v ∈ g.cells ↔ ∃ i j, g.cell? i j = some v := by
  simp only [cells, List.mem_flatten, cell?_eq_some_iff]
  constructor
  · intro h
    obtain ⟨row, hrow, hv⟩ := h
    obtain ⟨i, hi⟩ := List.mem_iff_getElem?.mp hrow
    obtain ⟨j, hj⟩ := List.mem_iff_getElem?.mp hv
    exact ⟨i, j, row, hi, hj⟩
  · intro h
    obtain ⟨i, j, row, hi, hj⟩ := h
    exact ⟨row, List.mem_of_getElem? hi, List.mem_of_getElem? hj⟩

theorem mem_column {g : Grid K} {j : Nat} {v : K} :
    v ∈ g.column j ↔ ∃ i, g.cell? i j = some v := by
  simp only [column, List.mem_filterMap, cell?_eq_some_iff]
  constructor
  · intro h
    obtain ⟨row, hrow, hv⟩ := h
    obtain ⟨i, hi⟩ := List.mem_iff_getElem?.mp hrow
    exact ⟨i, row, hi, hv⟩
  · intro h
    obtain ⟨i, row, hi, hv⟩ := h
    exact ⟨row, List.mem_of_getElem? hi, hv⟩

end Grid

end LinearAssignment
