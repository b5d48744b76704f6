import LinearAssignment.CostMatrix

/-! # Scalars whose numbers are ordered

    The order of a float type is not total: an invalid value is comparable with nothing, and
    the two zeros are different values of which neither is below the other.  Among numbers it
    is as good as total all the same, and that is all that the extremes of a list rest on.

    * `Scalar.Tied`: values of which neither is below the other.
    * `Scalar.Ordered`: the laws of the order.
    * `Scalar.exists_least?`, `Scalar.exists_greatest?`: numbers have extremes, found by the
      search for them.
    * `Scalar.exists_rangeFault?_eq`: the range check of a list of finite values. -/

namespace LinearAssignment.Scalar

section Order

variable {K : Type} [Scalar K]

/-- Neither value is below the other. -/
def Tied (a b : K) : Prop := ¬ a < b ∧ ¬ b < a

end Order

/-- A number type whose numbers are ordered up to ties.  Ties do not matter to the range
    check. -/
class Ordered (K : Type) [Scalar K] : Prop where
  isNumber_of_isFinite {v : K} : isFinite v = true → isNumber v = true
  lt_asymm {a b : K} : a < b → ¬ b < a
  lt_or_lt {a b c : K} : isNumber c = true → a < b → a < c ∨ c < b
  inRange_congr {lo lo' hi hi' : K} (dim : Nat) : isNumber lo = true → isNumber lo' = true →
    isNumber hi = true → isNumber hi' = true → Tied lo lo' → Tied hi hi' →
    inRange lo hi dim = inRange lo' hi' dim

variable {K : Type} [Scalar K]

/-! ## Extremes -/

/-- A value of the list, and no value of the list is below it. -/
structure IsSmallest (values : List K) (d : K) : Prop where
  mem : d ∈ values
  not_lt : ∀ v ∈ values, ¬ v < d

/-- A value of the list, and no value of the list is above it. -/
structure IsLargest (values : List K) (d : K) : Prop where
  mem : d ∈ values
  not_lt : ∀ v ∈ values, ¬ d < v

theorem IsSmallest.tied {values : List K} {d e : K} (hd : IsSmallest values d)
    (he : IsSmallest values e) : Tied d e :=
  ⟨he.not_lt d hd.mem, hd.not_lt e he.mem⟩

theorem IsLargest.tied {values : List K} {d e : K} (hd : IsLargest values d)
    (he : IsLargest values e) : Tied d e :=
  ⟨hd.not_lt e he.mem, he.not_lt d hd.mem⟩

section Ordered

variable [Ordered K]

theorem lt_irrefl (v : K) : ¬ v < v := fun h => Ordered.lt_asymm h h

theorem not_lt_trans_of_isNumber {a b c : K} (hb : isNumber b = true) (h : ¬ b < a)
    (h' : ¬ c < b) : ¬ c < a :=
  fun hlt => (Ordered.lt_or_lt hb hlt).elim h' h

/-- A list of numbers has a smallest one, and the search finds one. -/
theorem exists_least? {values : List K} (hnum : ∀ v ∈ values, isNumber v = true)
    (hne : values ≠ []) : ∃ d, least? values = some d ∧ IsSmallest values d := by
  induction values with
  | nil => exact absurd rfl hne
  | cons v vs ih =>
    obtain ⟨hv, hnum'⟩ := List.forall_mem_cons.mp hnum
    rw [least?, if_pos hv]
    by_cases hvs : vs = []
    · subst hvs
      exact ⟨v, rfl, by simp, by simpa using lt_irrefl v⟩
    · obtain ⟨d, hd, hsmall⟩ := ih hnum' hvs
      rw [hd]
      by_cases hlt : d < v
      · refine ⟨d, by simp [hlt], List.mem_cons_of_mem v hsmall.mem, ?_⟩
        exact List.forall_mem_cons.mpr ⟨Ordered.lt_asymm hlt, hsmall.not_lt⟩
      · refine ⟨v, by simp [hlt], List.mem_cons_self, ?_⟩
        refine List.forall_mem_cons.mpr ⟨lt_irrefl v, fun w hw => ?_⟩
        exact not_lt_trans_of_isNumber (hnum' d hsmall.mem) hlt (hsmall.not_lt w hw)

/-- A list of numbers has a largest one, and the search finds one. -/
theorem exists_greatest? {values : List K} (hnum : ∀ v ∈ values, isNumber v = true)
    (hne : values ≠ []) : ∃ d, greatest? values = some d ∧ IsLargest values d := by
  induction values with
  | nil => exact absurd rfl hne
  | cons v vs ih =>
    obtain ⟨hv, hnum'⟩ := List.forall_mem_cons.mp hnum
    rw [greatest?, if_pos hv]
    by_cases hvs : vs = []
    · subst hvs
      exact ⟨v, rfl, by simp, by simpa using lt_irrefl v⟩
    · obtain ⟨d, hd, hlarge⟩ := ih hnum' hvs
      rw [hd]
      by_cases hlt : v < d
      · refine ⟨d, by simp [hlt], List.mem_cons_of_mem v hlarge.mem, ?_⟩
        exact List.forall_mem_cons.mpr ⟨Ordered.lt_asymm hlt, hlarge.not_lt⟩
      · refine ⟨v, by simp [hlt], List.mem_cons_self, ?_⟩
        refine List.forall_mem_cons.mpr ⟨lt_irrefl v, fun w hw => ?_⟩
        exact not_lt_trans_of_isNumber (hnum' d hlarge.mem) (hlarge.not_lt w hw) hlt

end Ordered

/-! ## Range -/

/-- Solving could overflow: the span of the values, or twice the larger dimension and one
    more times their reach, is not finite. -/
def OutOfRange (lo hi : K) (dim : Nat) : Prop :=
  isFinite (hi - lo) = false ∨
    isFinite (larger (larger (hi - lo) (magnitude lo)) (magnitude hi)
      * ofNat 2 * (ofNat dim + ofNat 1)) = false

theorem inRange_eq_false_iff {lo hi : K} {dim : Nat} :
    inRange lo hi dim = false ↔ OutOfRange lo hi dim := by
  unfold inRange reach OutOfRange
  rw [Bool.and_eq_false_iff]

/-- **The range check names a smallest and a largest value, and it fails when these are out
    of range.** -/
theorem exists_rangeFault?_eq [Ordered K] {values : List K}
    (hfinite : ∀ v ∈ values, isFinite v = true) (hne : values ≠ []) (dim : Nat) :
    ∃ lo hi, IsSmallest values lo ∧ IsLargest values hi ∧
      rangeFault? values dim =
        if inRange lo hi dim then none else some (.valueRangeOverflow (some (lo, hi))) := by
  have hnum : ∀ v ∈ values, isNumber v = true :=
    fun v hv => Ordered.isNumber_of_isFinite (hfinite v hv)
  obtain ⟨lo, hlo, hsmall⟩ := exists_least? hnum hne
  obtain ⟨hi, hhi, hlarge⟩ := exists_greatest? hnum hne
  refine ⟨lo, hi, hsmall, hlarge, ?_⟩
  simp [rangeFault?, extremes?, hlo, hhi]

/-- Whatever smallest and largest value are taken, they are out of range alike. -/
theorem outOfRange_congr [Ordered K] {values : List K}
    (hfinite : ∀ v ∈ values, isFinite v = true) {lo lo' hi hi' : K}
    (hlo : IsSmallest values lo) (hlo' : IsSmallest values lo') (hhi : IsLargest values hi)
    (hhi' : IsLargest values hi') (dim : Nat) :
    OutOfRange lo hi dim ↔ OutOfRange lo' hi' dim := by
  have hnum : ∀ v ∈ values, isNumber v = true :=
    fun v hv => Ordered.isNumber_of_isFinite (hfinite v hv)
  rw [← inRange_eq_false_iff, ← inRange_eq_false_iff,
    Ordered.inRange_congr dim (hnum lo hlo.mem) (hnum lo' hlo'.mem) (hnum hi hhi.mem)
      (hnum hi' hhi'.mem) (hlo.tied hlo') (hhi.tied hhi')]

end LinearAssignment.Scalar
