import LinearAssignment.Proofs.Assignments
import LinearAssignment.Proofs.Runs

/-! # Every answer is an assignment

    Whatever the arithmetic of the scalars, the adjustment loop ends in an answer only with a
    complete matching of a square matrix.  Such a matching is a permutation, and what is left
    of it in the source is an assignment of the source.  Nothing here depends on what the
    values are.

    * `Solution.IsFeasible`: what an answer promises about itself.
    * `Run.isFeasible_solutionOf`: complete matchings keep the promise.
    * `Json.readTable_eq_ok`: how untyped input becomes a table.
    * `isFeasible_of_eq_ok`: every answer keeps the promise, for every solver and input. -/

namespace LinearAssignment

/-- The values that a partial function has on a list on which it is defined. -/
theorem map_eq_map_some_filterMap {α β : Type} {f : α → Option β} {l : List α}
    (h : ∀ a ∈ l, ∃ b, f a = some b) : l.map f = (l.filterMap f).map some := by
  induction l with
  | nil => rfl
  | cons a l ih =>
    obtain ⟨b, hb⟩ := h a List.mem_cons_self
    have hl := ih fun a' ha' => h a' (List.mem_cons_of_mem a ha')
    rw [List.map_cons, hl, List.filterMap_cons_some hb, List.map_cons, hb]

/-! ## Feasible solutions -/

/-- The pairs are as many as the smaller dimension of the source, lie in it, ascend in
    their rows and have distinct columns; the dummy lines counted are those that square the
    source; and the total adds up the source cells at the pairs, in their order. -/
structure Solution.IsFeasible {K : Type} [Scalar K] (sol : Solution K) : Prop where
  length_eq : sol.assignment.length = min sol.source.nrows sol.source.ncols
  ascending : sol.assignment.Pairwise fun p q => p.row < q.row
  cols_distinct : sol.assignment.Pairwise fun p q => p.col ≠ q.col
  inside : ∀ p ∈ sol.assignment, p.row < sol.source.nrows ∧ p.col < sol.source.ncols
  padding_eq : sol.padding =
    ⟨max sol.source.nrows sol.source.ncols - sol.source.nrows,
      max sol.source.nrows sol.source.ncols - sol.source.ncols⟩
  total_eq : ∃ values,
    sol.assignment.map (fun p => sol.source.cell? p.row p.col) = values.map some ∧
      sol.totalCost = Scalar.total values

namespace Run

variable {K : Type} [Scalar K] (c : Config) (a : CostMatrix K)

/-- The pairs read off the complete matching at the end of a run are what a permutation of
    the squared source leaves in the source. -/
theorem exists_realPairs_eq {μ : Matching}
    (h : (ofSource c a).descent.ending = .complete μ) :
    ∃ σ : Equiv.Perm (Fin a.dimension),
      (∀ i : Fin a.dimension, μ.col? i = some (σ i : Nat)) ∧
        (ofSource c a).realPairs μ = a.toGrid.pairsAlong σ := by
  obtain ⟨w, _, hrows, hcols, rfl, hcomplete⟩ := exists_last c a h
  have hfits := (ZeroPattern.maximumMatching_isMaximum w.zeroPattern).toFits
  obtain ⟨σ, hσ⟩ := hfits.exists_perm (by simpa using hrows) (by simpa using hcols) hcomplete
  refine ⟨σ, hσ, realPairs_eq_pairsAlong _ ?_ hσ⟩
  rw [hfits.nrows_eq, Grid.nrows_zeroPattern, hrows]

/-- **The solution of a run that ends in a complete matching is feasible.** -/
theorem isFeasible_solutionOf {μ : Matching}
    (h : (ofSource c a).descent.ending = .complete μ) :
    ((ofSource c a).solutionOf μ).IsFeasible := by
  obtain ⟨σ, _, hpairs⟩ := exists_realPairs_eq c a h
  have hassign : a.toGrid.IsAssignment (a.toGrid.pairsAlong σ) :=
    Grid.isAssignment_pairsAlong rfl
  rw [← hpairs] at hassign
  refine ⟨hassign.length_eq, ?_, List.pairwise_map.mp hassign.cols_nodup, ?_, rfl, ?_⟩
  · show ((ofSource c a).realPairs μ).Pairwise fun p q => p.row < q.row
    rw [hpairs]
    exact Grid.pairsAlong_ascending
  · show ∀ p ∈ (ofSource c a).realPairs μ, p.row < a.nrows ∧ p.col < a.ncols
    intro p hp
    exact ⟨hassign.row_lt p hp, hassign.col_lt p hp⟩
  · -- Each pair has a cell in the source, so no cell is left out of the sum.
    refine ⟨_, map_eq_map_some_filterMap fun p hp => ?_, rfl⟩
    exact a.toGrid.exists_cell? (hassign.row_lt p hp) (hassign.col_lt p hp)

end Run

/-! ## Untyped input -/

namespace Json

theorem items?_eq_some_iff {j : Json} {items : List Json} :
    j.items? = some items ↔ j = .arr items := by
  cases j <;> simp [items?]

/-- Rows that are all lists are the lists of their items. -/
theorem eq_map_arr_items {rows : List Json} (h : firstBadRow? rows = none) :
    rows = (rows.filterMap items?).map Json.arr := by
  have hlists : ∀ row ∈ rows, row.items?.isNone = false := by
    simpa [firstBadRow?] using h
  clear h
  induction rows with
  | nil => rfl
  | cons row rows ih =>
    have hrest := ih fun r hr => hlists r (List.mem_cons_of_mem row hr)
    cases hrow : row.items? with
    | none =>
      have hlist := hlists row List.mem_cons_self
      rw [hrow] at hlist
      cases hlist
    | some items =>
      rw [List.filterMap_cons_some hrow, List.map_cons, ← hrest,
        ← items?_eq_some_iff.mp hrow]

/-- Every cell of a table without failures denotes a finite number. -/
theorem exists_finiteCell? {table : RawTable Json} (h : tableFault? table = none) :
    ∀ row ∈ table, ∀ cell ∈ row, ∃ v, finiteCell? cell = some v := by
  have hcells : table.firstCell? cellFault? = none := by
    unfold tableFault? at h
    split at h
    · cases h
    · split at h
      · cases h
      · exact h
  intro row hrow cell hcell
  obtain ⟨i, hi⟩ := List.mem_iff_getElem?.mp hrow
  obtain ⟨j, hj⟩ := List.mem_iff_getElem?.mp hcell
  have hfault := RawTable.firstCell?_eq_none_iff.mp hcells i row hi j cell hj
  unfold cellFault? at hfault
  split at hfault
  · next v hv => exact ⟨v, hv⟩
  · cases hfault

/-- **Untyped input that reads as a table is a list of lists, and each of its cells denotes
    the number that stands in its place.** -/
theorem readTable_eq_ok {j : Json} {table : RawTable Float} (h : j.readTable = .ok table) :
    ∃ items : RawTable Json, j = .arr (items.map Json.arr) ∧
      items.map (·.map finiteCell?) = table.map (·.map some) := by
  unfold readTable table? at h
  cases hj : j.items? with
  | none =>
    rw [hj] at h
    cases h
  | some rows =>
    rw [hj] at h
    simp only at h
    cases hbad : firstBadRow? rows with
    | some i =>
      rw [hbad] at h
      cases h
    | none =>
      rw [hbad] at h
      simp only at h
      cases hfault : tableFault? (rows.filterMap items?) with
      | some failure =>
        rw [hfault] at h
        cases h
      | none =>
        rw [hfault] at h
        obtain rfl := Except.ok.inj h
        refine ⟨rows.filterMap items?, ?_, ?_⟩
        · rw [← eq_map_arr_items hbad]
          exact items?_eq_some_iff.mp hj
        · unfold numbers
          rw [List.map_map]
          refine List.map_congr_left fun row hrow => ?_
          exact map_eq_map_some_filterMap (exists_finiteCell? hfault row hrow)

end Json

/-! ## Every answer -/

/-- **Every answer is feasible.**  Whatever the settings, the scalars and the input: when a
    table is answered, the source of the answer is that table; when untyped input is
    answered, the source holds the number of each cell in its place; and in both cases the
    answer is an assignment of the source, with its padding and its total. -/
theorem isFeasible_of_eq_ok (s : Solver) :
    (∀ (K : Type) [Scalar K] (table : RawTable K) (sol : Solution K),
      s.solve table = .ok sol → sol.source.rows = table ∧ sol.IsFeasible) ∧
    ∀ (j : Json) (sol : Solution Float), s.solveJson j = .ok sol →
      (∃ items : RawTable Json, j = .arr (items.map Json.arr) ∧
        items.map (·.map Json.finiteCell?) = sol.source.rows.map (·.map some)) ∧
      sol.IsFeasible := by
  constructor
  · intro K _ table sol hsol
    obtain ⟨a, μ, ha, _, hending, rfl⟩ := s.answerValidated_eq_ok_iff.mp hsol
    exact ⟨CostMatrix.rows_of_ofRows ha, Run.isFeasible_solutionOf _ a hending⟩
  · intro j sol hsol
    obtain ⟨a, μ, ha, _, hending, rfl⟩ := s.answerValidated_eq_ok_iff.mp hsol
    refine ⟨?_, Run.isFeasible_solutionOf _ a hending⟩
    unfold CostMatrix.ofJson at ha
    cases hread : j.readTable with
    | error failure =>
      rw [hread] at ha
      cases ha
    | ok table =>
      rw [hread] at ha
      have hrows : a.rows = table := CostMatrix.rows_of_ofRows ha
      rw [show ((Run.ofSource s.config a).solutionOf μ).source.rows = table from hrows]
      exact Json.readTable_eq_ok hread

/-- A table with more rows than columns, as floats to be maximized and as untyped cells, one
    of them a text: both are answered with two pairs. -/
theorem isFeasible_tall_table :
    let s : Solver := ⟨⟨.maximize, some 3, false⟩, rfl⟩
    let table : RawTable Float := [[2, 7], [2, 5], [1, 9]]
    let j : Json := .arr [.arr [.int 2, .str " 7"], .arr [.float 2, .int 5], .arr [.int 1, .int 9]]
    (∃ sol, s.solve table = .ok sol ∧ sol.source.rows = table ∧ sol.IsFeasible) ∧
      ∃ sol, s.solveJson j = .ok sol ∧ sol.IsFeasible := by
  intro s table j
  have htable : (s.solve table).toOption.isSome = true := by decide +kernel
  have hj : (s.solveJson j).toOption.isSome = true := by decide +kernel
  constructor
  · cases hsol : s.solve table with
    | error failure =>
      rw [hsol] at htable
      cases htable
    | ok sol => exact ⟨sol, rfl, (isFeasible_of_eq_ok s).1 Float table sol hsol⟩
  · cases hsol : s.solveJson j with
    | error failure =>
      rw [hsol] at hj
      cases hj
    | ok sol => exact ⟨sol, rfl, ((isFeasible_of_eq_ok s).2 j sol hsol).2⟩

end LinearAssignment
