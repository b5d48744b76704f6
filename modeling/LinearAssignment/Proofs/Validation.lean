import LinearAssignment.Proofs.FloatOrder
import LinearAssignment.Proofs.TableChecks

/-! # Validation reports the first failure

    The checks of a table come to a verdict: the first failure in the order of the checks, or
    the accepted matrix.  Each kind of verdict says what the checks before it have found.
    Untyped input is checked for its form first and then as a table of cells; the numbers of
    a table without failures are checked once more, which finds nothing new but their range.

    * `RawTable.Verdict`: what the checks make of a table.
    * `RawTable.verdict_ofRows`, `RawTable.verdict_ofJson`: validation gives a verdict on every
      table.
    * `RawTable.Checked`: when each outcome arises, read off the verdict.
    * `validation_in_order`: the outcomes of validation, for typed and untyped input. -/

namespace LinearAssignment

open Scalar

/-- The value itself, when it is finite. -/
def Scalar.finite? {K : Type} [Scalar K] (v : K) : Option K := if isFinite v then some v else none

theorem Scalar.finite?_eq_some_iff {K : Type} [Scalar K] {v w : K} :
    finite? v = some w ↔ isFinite v = true ∧ v = w := by
  unfold finite?
  split <;> simp_all

namespace RawTable

variable {α K : Type} [Scalar K] {read : α → Option K} {text : α → String}
  {table : RawTable α}

/-! ## Verdicts -/

/-- What the checks make of a table.  Each kind of verdict needs what the checks before it
    have found; the values are looked at only when every cell has one. -/
inductive Verdict (read : α → Option K) (text : α → String) (table : RawTable α) :
    Except (Failure K) (CostMatrix K) → Prop where
  | empty : table.IsEmpty → Verdict read text table (.error .emptyMatrix)
  | ragged {i found : Nat} : ¬ table.IsEmpty → table.IsFirstRagged i found →
      Verdict read text table (.error (.raggedMatrix i table.width found))
  | unread {i j : Nat} {cell : α} : ¬ table.IsEmpty → table.IsRectangular →
      table.IsFirstUnread read i j cell →
      Verdict read text table (.error (.nonNumericEntry i j (text cell)))
  | outOfRange {values : RawTable K} {lo hi : K} : ¬ table.IsEmpty → table.IsRectangular →
      table.Reads read values → IsSmallest values.flatten lo → IsLargest values.flatten hi →
      OutOfRange lo hi (max table.length table.width) →
      Verdict read text table (.error (.valueRangeOverflow (some (lo, hi))))
  | accepted {a : CostMatrix K} {lo hi : K} : ¬ table.IsEmpty → table.IsRectangular →
      table.Reads read a.rows → a.shape = (table.length, table.width) →
      IsSmallest a.rows.flatten lo → IsLargest a.rows.flatten hi →
      ¬ OutOfRange lo hi (max table.length table.width) → Verdict read text table (.ok a)

/-- A failure before the range is a verdict. -/
theorem verdict_of_firstFault? {failure : Failure K}
    (h : table.firstFault? read text = some failure) :
    Verdict read text table (.error failure) := by
  unfold firstFault? at h
  split at h
  · next hwidth =>
    obtain rfl := Option.some.inj h
    exact .empty (width_eq_zero_iff.mp hwidth)
  · next hwidth =>
    have hne : ¬ table.IsEmpty := mt width_eq_zero_iff.mpr hwidth
    split at h
    · next i found hragged =>
      obtain rfl := Option.some.inj h
      exact .ragged hne (isFirstRagged_of_firstRagged? hragged)
    · next hragged =>
      obtain ⟨i, j, cell, hfirst, rfl⟩ := exists_isFirstUnread h
      exact .unread hne (length_of_firstRagged?_eq_none hragged) hfirst

/-- The failures of a table of scalars are those before the range and then that of the range. -/
theorem fault?_eq (table : RawTable K) :
    table.fault? = (table.firstFault? finite? Scalar.text).or
      (rangeFault? table.flatten (max table.length table.width)) := by
  have hcell : (cellFault? : Nat → Nat → K → Option (Failure K)) =
      unreadFault? finite? Scalar.text := by
    funext i j v
    unfold cellFault? unreadFault? finite?
    cases isFinite v <;> rfl
  unfold fault? firstFault?
  rw [hcell]
  by_cases hwidth : table.width = 0
  · rw [if_pos hwidth, if_pos hwidth]
    rfl
  · rw [if_neg hwidth, if_neg hwidth]
    cases table.firstRagged? with
    | some ragged => rfl
    | none => cases table.firstCell? (unreadFault? finite? Scalar.text) <;> rfl

/-- A table of finite scalars is the table of its values. -/
theorem reads_self {values : RawTable K} (h : ∀ row ∈ values, ∀ v ∈ row, isFinite v = true) :
    values.Reads finite? values := by
  refine List.map_congr_left fun row hrow => List.map_congr_left fun v hv => ?_
  rw [finite?, if_pos (h row hrow v hv)]

end RawTable

/-! ## Typed input -/

namespace CostMatrix

variable {K : Type} [Scalar K]

theorem ofRows_eq_error_iff {table : RawTable K} {failure : Failure K} :
    ofRows table = .error failure ↔ table.fault? = some failure := by
  unfold ofRows
  split
  · next f h => simp [h]
  · next h => simp [h]

theorem exists_ofRows_eq_ok {table : RawTable K} (h : table.fault? = none) :
    ∃ a, ofRows table = .ok a := by
  cases hok : ofRows table with
  | ok a => exact ⟨a, rfl⟩
  | error failure =>
    rw [ofRows_eq_error_iff, h] at hok
    cases hok

theorem fault?_eq_none_of_ofRows {table : RawTable K} {a : CostMatrix K}
    (h : ofRows table = .ok a) : table.fault? = none := by
  cases hfault : table.fault? with
  | none => rfl
  | some failure =>
    rw [ofRows_eq_error_iff.mpr hfault] at h
    cases h

theorem shape_of_ofRows {table : RawTable K} {a : CostMatrix K} (h : ofRows table = .ok a) :
    a.shape = (table.length, table.width) := by
  unfold ofRows at h
  split at h
  · cases h
  · obtain rfl := Except.ok.inj h
    rfl

end CostMatrix

namespace RawTable

variable {α K : Type} [Scalar K] {read : α → Option K} {text : α → String}
  {table : RawTable α}

/-- Once every cell has a finite value, only the range of the values is left to check. -/
theorem Reads.fault?_eq {values : RawTable K} (hreads : table.Reads read values)
    (hne : ¬ table.IsEmpty) (hrect : table.IsRectangular)
    (hfinite : ∀ row ∈ values, ∀ v ∈ row, isFinite v = true) :
    values.fault? = rangeFault? values.flatten (max table.length table.width) := by
  have hfirst : values.firstFault? finite? Scalar.text = none :=
    firstFault?_eq_none_iff.mpr ⟨mt hreads.isEmpty_iff.mp hne, hreads.isRectangular_iff.mpr hrect,
      fun row hrow v hv => ⟨v, if_pos (hfinite row hrow v hv)⟩⟩
  rw [RawTable.fault?_eq, hfirst, Option.none_or, hreads.length_eq, hreads.width_eq]

/-- The verdict is then that of the range. -/
theorem Reads.verdict [Ordered K] {values : RawTable K} (hreads : table.Reads read values)
    (hne : ¬ table.IsEmpty) (hrect : table.IsRectangular)
    (hfinite : ∀ row ∈ values, ∀ v ∈ row, isFinite v = true) :
    Verdict read text table (CostMatrix.ofRows values) := by
  have hflat : ∀ v ∈ values.flatten, isFinite v = true := by
    intro v hv
    obtain ⟨row, hrow, hv⟩ := List.mem_flatten.mp hv
    exact hfinite row hrow v hv
  obtain ⟨lo, hi, hlo, hhi, hrange⟩ := exists_rangeFault?_eq hflat
    (flatten_ne_nil (mt hreads.isEmpty_iff.mp hne)) (max table.length table.width)
  have hfault := (hreads.fault?_eq hne hrect hfinite).trans hrange
  cases hin : inRange lo hi (max table.length table.width) with
  | false =>
    rw [hin] at hfault
    rw [CostMatrix.ofRows_eq_error_iff.mpr hfault]
    exact .outOfRange hne hrect hreads hlo hhi (inRange_eq_false_iff.mp hin)
  | true =>
    rw [hin] at hfault
    obtain ⟨a, ha⟩ := CostMatrix.exists_ofRows_eq_ok hfault
    have hrows : a.rows = values := CostMatrix.rows_of_ofRows ha
    have hshape := CostMatrix.shape_of_ofRows ha
    rw [hreads.length_eq, hreads.width_eq] at hshape
    rw [ha]
    rw [← hrows] at hreads hlo hhi
    refine .accepted hne hrect hreads hshape hlo hhi fun hout => ?_
    rw [inRange_eq_false_iff.mpr hout] at hin
    cases hin

/-- **Validation of a table of scalars gives a verdict on it.** -/
theorem verdict_ofRows [Ordered K] (table : RawTable K) :
    Verdict finite? Scalar.text table (CostMatrix.ofRows table) := by
  cases hfirst : table.firstFault? finite? Scalar.text with
  | some failure =>
    have hfault : table.fault? = some failure := by rw [fault?_eq, hfirst, Option.some_or]
    rw [CostMatrix.ofRows_eq_error_iff.mpr hfault]
    exact verdict_of_firstFault? hfirst
  | none =>
    obtain ⟨hne, hrect, hcells⟩ := firstFault?_eq_none_iff.mp hfirst
    have hfinite : ∀ row ∈ table, ∀ v ∈ row, isFinite v = true := by
      intro row hrow v hv
      obtain ⟨w, hw⟩ := hcells row hrow v hv
      exact (finite?_eq_some_iff.mp hw).1
    exact (reads_self hfinite).verdict hne hrect hfinite

end RawTable

/-! ## The rows of a grid -/

namespace Grid

variable {K : Type}

theorem isRectangular_rows (g : Grid K) : RawTable.IsRectangular g.rows := fun row hrow =>
  (g.rect row hrow).trans (g.width_rows (List.ne_nil_of_mem hrow)).symm

theorem isEmpty_rows_iff {g : Grid K} : RawTable.IsEmpty g.rows ↔ g.rows = [] ∨ g.ncols = 0 := by
  rw [← RawTable.width_eq_zero_iff]
  by_cases hrows : g.rows = []
  · simp [hrows, RawTable.width]
  · rw [g.width_rows hrows, or_iff_right hrows]

/-- Where every cell is finite, only the range of a grid with cells is left to check. -/
theorem fault?_rows [Scalar K] {g : Grid K} (hne : ¬ (g.rows = [] ∨ g.ncols = 0))
    (hfinite : ∀ v ∈ g.cells, isFinite v = true) :
    RawTable.fault? g.rows = rangeFault? g.cells g.dimension := by
  have hrows : ∀ row ∈ g.rows, ∀ v ∈ row, isFinite v = true :=
    fun row hrow v hv => hfinite v (List.mem_flatten.mpr ⟨row, hrow, hv⟩)
  rw [(RawTable.reads_self hrows).fault?_eq (mt isEmpty_rows_iff.mp hne) g.isRectangular_rows
    hrows, g.width_rows fun hnil => hne (.inl hnil)]
  rfl

end Grid

/-- **The rows of a cost matrix are accepted, and as that matrix.** -/
theorem CostMatrix.ofRows_rows {K : Type} [Scalar K] (a : CostMatrix K) :
    ofRows a.rows = .ok a := by
  have hne : ¬ (a.rows = [] ∨ a.ncols = 0) := not_or.mpr ⟨a.rows_ne_nil, a.ncols_pos.ne'⟩
  have hfault : RawTable.fault? a.rows = none :=
    (Grid.fault?_rows hne a.finite_cells).trans a.in_range
  obtain ⟨b, hb⟩ := exists_ofRows_eq_ok hfault
  rw [hb, ext_rows (rows_of_ofRows hb)]

/-! ## Untyped input -/

namespace Json

theorem isFinite_of_finiteCell? {cell : Json} {v : Float} (h : cell.finiteCell? = some v) :
    isFinite v = true :=
  (Option.filter_eq_some_iff.mp h).2

theorem isFinite_of_mem_numbers (table : RawTable Json) :
    ∀ row ∈ numbers table, ∀ v ∈ row, isFinite v = true := by
  intro row hrow v hv
  obtain ⟨cells, _, rfl⟩ := List.mem_map.mp hrow
  obtain ⟨cell, _, hcell⟩ := List.mem_filterMap.mp hv
  exact isFinite_of_finiteCell? hcell

/-- The entry at place `i` is the first one that is no list. -/
structure IsFirstNonRow (rows : List Json) (i : Nat) : Prop where
  here : ∃ entry, rows[i]? = some entry ∧ ∀ items, entry ≠ .arr items
  before : ∀ i' < i, ∀ entry, rows[i']? = some entry → ∃ items, entry = .arr items

theorem items?_isNone_iff {j : Json} : j.items?.isNone = true ↔ ∀ items, j ≠ .arr items := by
  cases j <;> simp [items?]

theorem firstBadRow?_eq_some_iff {rows : List Json} {i : Nat} :
    firstBadRow? rows = some i ↔ IsFirstNonRow rows i := by
  unfold firstBadRow?
  rw [List.findIdx?_eq_some_iff_getElem]
  constructor
  · rintro ⟨hi, hhere, hbefore⟩
    refine ⟨⟨rows[i], List.getElem?_eq_getElem hi, items?_isNone_iff.mp hhere⟩, ?_⟩
    intro i' hi' entry hentry
    obtain ⟨hlt, rfl⟩ := List.getElem?_eq_some_iff.mp hentry
    have hlist := hbefore i' hi'
    rw [items?_isNone_iff] at hlist
    simpa using hlist
  · rintro ⟨⟨entry, hentry, hhere⟩, hbefore⟩
    obtain ⟨hi, rfl⟩ := List.getElem?_eq_some_iff.mp hentry
    refine ⟨hi, items?_isNone_iff.mpr hhere, fun i' hi' hnone => ?_⟩
    obtain ⟨items, hitems⟩ := hbefore i' hi' _ (List.getElem?_eq_getElem (by omega))
    exact items?_isNone_iff.mp hnone items hitems

/-- A list of lists is a table. -/
theorem table?_eq_ok_iff {j : Json} {table : RawTable Json} :
    j.table? = .ok table ↔ j = .arr (table.map .arr) := by
  constructor
  · intro h
    unfold table? at h
    split at h
    · cases h
    · next rows hrows =>
      split at h
      · cases h
      · next hbad =>
        obtain rfl := Except.ok.inj h
        rw [← eq_map_arr_items hbad]
        exact items?_eq_some_iff.mp hrows
  · rintro rfl
    have hbad : firstBadRow? (table.map .arr) = none := by
      simp [firstBadRow?, items?]
    have hitems : (table.map Json.arr).filterMap items? = table := by
      simp [List.filterMap_map, Function.comp_def, items?]
    unfold table?
    simp only [items?]
    rw [hbad, hitems]

theorem table?_eq_notRows_iff {j : Json} :
    j.table? = .error .notRows ↔ ∀ rows, j ≠ .arr rows := by
  unfold table?
  cases hitems : j.items? with
  | none => simpa [hitems] using items?_isNone_iff.mp (by rw [hitems]; rfl)
  | some rows =>
    have hj := items?_eq_some_iff.mp hitems
    cases hbad : firstBadRow? rows <;> simp [hj, hbad]

theorem table?_eq_notRow_iff {j : Json} {i : Nat} :
    j.table? = .error (.notRow i) ↔ ∃ rows, j = .arr rows ∧ IsFirstNonRow rows i := by
  unfold table?
  simp only [← firstBadRow?_eq_some_iff, ← items?_eq_some_iff]
  cases hitems : j.items? with
  | none => simp
  | some rows => cases hbad : firstBadRow? rows <;> simp [hbad]

/-- The failures of a table of cells are those before the range. -/
theorem tableFault?_eq (table : RawTable Json) :
    tableFault? table = table.firstFault? finiteCell? canonical := by
  have hcell : cellFault? = RawTable.unreadFault? finiteCell? canonical := by
    funext i j cell
    unfold cellFault? RawTable.unreadFault?
    cases cell.finiteCell? <;> rfl
  unfold tableFault? RawTable.firstFault?
  by_cases hwidth : table.width = 0
  · rw [if_pos hwidth, if_pos hwidth]
  · rw [if_neg hwidth, if_neg hwidth]
    cases table.firstRagged? with
    | some ragged => rfl
    | none => exact congrArg table.firstCell? hcell

/-- Untyped input that is a table is checked as a table, and then its numbers are. -/
theorem ofJson_arr (table : RawTable Json) :
    CostMatrix.ofJson (.arr (table.map .arr)) =
      match table.firstFault? finiteCell? canonical with
      | some failure => .error failure
      | none => CostMatrix.ofRows (numbers table) := by
  have htable := table?_eq_ok_iff.mpr (Eq.refl (Json.arr (table.map .arr)))
  unfold CostMatrix.ofJson readTable
  rw [htable, ← tableFault?_eq]
  simp only
  cases tableFault? table <;> rfl

end Json

namespace RawTable

/-- **Validation of a table of cells gives a verdict on it.** -/
theorem verdict_ofJson (table : RawTable Json) :
    Verdict Json.finiteCell? Json.canonical table
      (CostMatrix.ofJson (.arr (table.map .arr))) := by
  rw [Json.ofJson_arr]
  cases hfirst : table.firstFault? Json.finiteCell? Json.canonical with
  | some failure => exact verdict_of_firstFault? hfirst
  | none =>
    obtain ⟨hne, hrect, hcells⟩ := firstFault?_eq_none_iff.mp hfirst
    exact (reads_filterMap hcells).verdict hne hrect (Json.isFinite_of_mem_numbers table)

end RawTable

/-- Untyped input is malformed exactly when it is no table. -/
theorem Json.ofJson_eq_malformed_iff {j : Json} {cause : Malformation} :
    CostMatrix.ofJson j = .error (.malformedInput cause) ↔ j.table? = .error cause := by
  cases htable : j.table? with
  | error cause' =>
    unfold CostMatrix.ofJson readTable
    rw [htable]
    simp [Except.bind]
  | ok table =>
    rw [table?_eq_ok_iff.mp htable]
    have hverdict := RawTable.verdict_ofJson table
    refine iff_of_false (fun h => ?_) (by simp)
    rw [h] at hverdict
    cases hverdict

/-! ## When each outcome arises -/

namespace RawTable

variable {α K : Type} [Scalar K] {read : α → Option K} {text : α → String}
  {table : RawTable α}

/-- The outcomes of the checks on a table, in the order in which they are tried: each arises
    exactly when the ones before do not and its own cause is there. -/
structure Checked (read : α → Option K) (text : α → String) (table : RawTable α)
    (outcome : Except (Failure K) (CostMatrix K)) : Prop where
  empty_iff : outcome = .error .emptyMatrix ↔ table.IsEmpty
  ragged_iff : ∀ i expected found, outcome = .error (.raggedMatrix i expected found) ↔
    ¬ table.IsEmpty ∧ table.IsFirstRagged i found ∧ expected = table.width
  entry_iff : ∀ i j entry, outcome = .error (.nonNumericEntry i j entry) ↔
    ¬ table.IsEmpty ∧ table.IsRectangular ∧
      ∃ cell, table.IsFirstUnread read i j cell ∧ entry = text cell
  range_iff : (∃ bounds, outcome = .error (.valueRangeOverflow bounds)) ↔
    ¬ table.IsEmpty ∧ table.IsRectangular ∧ ∃ values lo hi, table.Reads read values ∧
      IsSmallest values.flatten lo ∧ IsLargest values.flatten hi ∧
      OutOfRange lo hi (max table.length table.width)
  bounds_eq : ∀ bounds, outcome = .error (.valueRangeOverflow bounds) →
    ∃ values lo hi, table.Reads read values ∧ bounds = some (lo, hi) ∧
      IsSmallest values.flatten lo ∧ IsLargest values.flatten hi
  accepted_iff : (∃ a, outcome = .ok a) ↔
    ¬ table.IsEmpty ∧ table.IsRectangular ∧ ∃ values lo hi, table.Reads read values ∧
      IsSmallest values.flatten lo ∧ IsLargest values.flatten hi ∧
      ¬ OutOfRange lo hi (max table.length table.width)
  accepted : ∀ a, outcome = .ok a →
    table.Reads read a.rows ∧ a.shape = (table.length, table.width)

/-- **A verdict settles all outcomes.** -/
theorem Verdict.checked [Ordered K] (hread : ∀ c v, read c = some v → isFinite v = true)
    {outcome : Except (Failure K) (CostMatrix K)} (h : Verdict read text table outcome) :
    Checked read text table outcome := by
  -- Each kind of verdict shows its own cause and excludes those of the other outcomes.
  cases h with
  | empty hempty => exact {
      empty_iff := iff_of_true rfl hempty
      ragged_iff := fun _ _ _ => iff_of_false (by simp) fun h => h.1 hempty
      entry_iff := fun _ _ _ => iff_of_false (by simp) fun h => h.1 hempty
      range_iff := iff_of_false (by simp) fun h => h.1 hempty
      bounds_eq := by simp
      accepted_iff := iff_of_false (by simp) fun h => h.1 hempty
      accepted := by simp }
  | @ragged i found hne hfirst =>
    have hrect := hfirst.not_isRectangular
    exact {
      empty_iff := iff_of_false (by simp) hne
      ragged_iff := by
        intro i' expected found'
        constructor
        · intro h
          cases h
          exact ⟨hne, hfirst, rfl⟩
        · rintro ⟨_, hfirst', rfl⟩
          obtain ⟨rfl, rfl⟩ := hfirst.unique hfirst'
          rfl
      entry_iff := fun _ _ _ => iff_of_false (by simp) fun h => hrect h.2.1
      range_iff := iff_of_false (by simp) fun h => hrect h.2.1
      bounds_eq := by simp
      accepted_iff := iff_of_false (by simp) fun h => hrect h.2.1
      accepted := by simp }
  | @unread i j cell hne hrect hfirst => exact {
      empty_iff := iff_of_false (by simp) hne
      ragged_iff := fun _ _ _ =>
        iff_of_false (by simp) fun h => h.2.1.not_isRectangular hrect
      entry_iff := by
        intro i' j' entry
        constructor
        · intro h
          cases h
          exact ⟨hne, hrect, cell, hfirst, rfl⟩
        · rintro ⟨_, _, cell', hfirst', rfl⟩
          obtain ⟨rfl, rfl, rfl⟩ := hfirst.unique hfirst'
          rfl
      range_iff := iff_of_false (by simp) fun ⟨_, _, values, _, _, hreads, _⟩ =>
        hfirst.not_reads values hreads
      bounds_eq := by simp
      accepted_iff := iff_of_false (by simp) fun ⟨_, _, values, _, _, hreads, _⟩ =>
        hfirst.not_reads values hreads
      accepted := by simp }
  | @outOfRange values lo hi hne hrect hreads hlo hhi hout =>
    have hfinite : ∀ v ∈ values.flatten, isFinite v = true := by
      intro v hv
      obtain ⟨c, hc⟩ := hreads.exists_cell hv
      exact hread c v hc
    exact {
      empty_iff := iff_of_false (by simp) hne
      ragged_iff := fun _ _ _ =>
        iff_of_false (by simp) fun h => h.2.1.not_isRectangular hrect
      entry_iff := fun _ _ _ => iff_of_false (by simp) fun ⟨_, _, _, hfirst, _⟩ =>
        hfirst.not_reads values hreads
      range_iff := iff_of_true ⟨_, rfl⟩ ⟨hne, hrect, values, lo, hi, hreads, hlo, hhi, hout⟩
      bounds_eq := by
        intro bounds h
        cases h
        exact ⟨values, lo, hi, hreads, rfl, hlo, hhi⟩
      accepted_iff := by
        refine iff_of_false (by simp) ?_
        rintro ⟨_, _, values', lo', hi', hreads', hlo', hhi', hin⟩
        obtain rfl := hreads.unique hreads'
        exact hin ((outOfRange_congr hfinite hlo hlo' hhi hhi' _).mp hout)
      accepted := by simp }
  | @accepted a lo hi hne hrect hreads hshape hlo hhi hin =>
    have hfinite : ∀ v ∈ a.rows.flatten, isFinite v = true := by
      intro v hv
      obtain ⟨c, hc⟩ := hreads.exists_cell hv
      exact hread c v hc
    exact {
      empty_iff := iff_of_false (by simp) hne
      ragged_iff := fun _ _ _ =>
        iff_of_false (by simp) fun h => h.2.1.not_isRectangular hrect
      entry_iff := fun _ _ _ => iff_of_false (by simp) fun ⟨_, _, _, hfirst, _⟩ =>
        hfirst.not_reads a.rows hreads
      range_iff := by
        refine iff_of_false (by simp) ?_
        rintro ⟨_, _, values', lo', hi', hreads', hlo', hhi', hout⟩
        obtain rfl := hreads.unique hreads'
        exact hin ((outOfRange_congr hfinite hlo hlo' hhi hhi' _).mpr hout)
      bounds_eq := by simp
      accepted_iff := iff_of_true ⟨a, rfl⟩ ⟨hne, hrect, a.rows, lo, hi, hreads, hlo, hhi, hin⟩
      accepted := by
        intro a' h
        cases h
        exact ⟨hreads, hshape⟩ }

end RawTable

/-- **Validation reports the first failure, in a fixed order.**  A table of floats is checked
    for cells, then for the lengths of its rows, then for cells that are not finite, then for
    the range of its values.  Untyped input is checked in the same order on the numbers that
    its cells hold, after a check that it is a list, and of lists. -/
theorem validation_in_order :
    (∀ table : RawTable Float,
      table.Checked finite? Scalar.text (CostMatrix.ofRows table)) ∧
    (∀ j : Json, CostMatrix.ofJson j = .error (.malformedInput .notRows) ↔
      ∀ rows, j ≠ .arr rows) ∧
    (∀ (j : Json) (i : Nat), CostMatrix.ofJson j = .error (.malformedInput (.notRow i)) ↔
      ∃ rows, j = .arr rows ∧ Json.IsFirstNonRow rows i) ∧
    ∀ table : RawTable Json, table.Checked Json.finiteCell? Json.canonical
      (CostMatrix.ofJson (.arr (table.map .arr))) := by
  refine ⟨fun table => ?_, fun j => ?_, fun j i => ?_, fun table => ?_⟩
  · refine table.verdict_ofRows.checked fun v w h => ?_
    obtain ⟨hfinite, rfl⟩ := finite?_eq_some_iff.mp h
    exact hfinite
  · rw [Json.ofJson_eq_malformed_iff, Json.table?_eq_notRows_iff]
  · rw [Json.ofJson_eq_malformed_iff, Json.table?_eq_notRow_iff]
  · exact table.verdict_ofJson.checked fun _ _ h => Json.isFinite_of_finiteCell? h

end LinearAssignment
