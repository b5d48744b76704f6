import LinearAssignment.Proofs.LargestMatching
import LinearAssignment.Proofs.Loops

/-! # The greedy pass

    The greedy matching is built in as many steps as there are rows.  No more are needed, since
    each step pairs a row, so what ends the pass is that no row can be paired; then every zero
    lies in a row or a column that is paired, and these are twice as many as the pairs.

    In place the pass keeps a flag for each line, counts the zeros of every open row again
    before each pair, and goes on until there is no row left with a zero.  Its flags are those
    of the paired lines, so it makes the same choices.

    * `choice?_eq_none_iff`: when no row can be paired.
    * `choice?_extend`: enough steps lead there.
    * `Independent.card_le_two_mul`: the size of a matching whose lines cover all zeros.
    * `Pass`, `Grid.nextPass`, `Grid.runPass`: the pass in place, its body and its loop.
    * `runPass_eq`: it ends in the greedy matching.
    * `greedy_isMaximal`: all of it together. -/

namespace LinearAssignment

namespace ZeroPattern

variable {p : ZeroPattern} {μ : Matching}

/-! ## When no row can be paired -/

theorem candidate?_of_paired {i j : Nat} (h : μ.col? i = some j) : p.candidate? μ i = none := by
  simp [candidate?, h]

/-- An open row offers the first of its free zeros. -/
theorem candidate?_of_open {i : Nat} (h : μ.col? i = none) :
    p.candidate? μ i = match p.available μ i with
      | [] => none
      | j :: js => some ⟨i, j, js.length⟩ :=
  if_neg (by simp [h])

/-- A row with a zero offers nothing exactly when it is paired or its zeros have paired
    columns. -/
theorem candidate?_eq_none_iff {i : Nat} :
    p.candidate? μ i = none ↔ i ∈ μ.pairedRows ∨ ∀ j, p.IsZero i j → j ∈ μ.pairedCols := by
  have hcols : p.available μ i = [] ↔ ∀ j, p.IsZero i j → j ∈ μ.pairedCols := by
    simp only [List.eq_nil_iff_forall_not_mem, mem_available, not_and, Matching.mem_pairedCols,
      ← Option.ne_none_iff_exists', ne_eq]
  rw [← hcols, Matching.mem_pairedRows]
  cases hrow : μ.col? i with
  | some j => simp [candidate?_of_paired hrow]
  | none =>
    rw [candidate?_of_open hrow]
    cases p.available μ i <;> simp

/-- **No row can be paired exactly when every zero lies on a paired line.** -/
theorem choice?_eq_none_iff : p.choice? μ = none ↔ p.Covers μ.pairedRows μ.pairedCols := by
  have hnil : p.choice? μ = none ↔ ∀ i < p.nrows, p.candidate? μ i = none := by
    unfold choice?
    cases hl : (List.range p.nrows).filterMap (p.candidate? μ) with
    | nil => simpa using hl
    | cons c cs =>
      have hne : (List.range p.nrows).filterMap (p.candidate? μ) ≠ [] := by simp [hl]
      simpa [List.minOn?] using hne
  rw [hnil]
  constructor
  · intro h i j hz
    exact (candidate?_eq_none_iff.mp (h i hz.lt_nrows)).imp_right fun hcols => hcols j hz
  · intro h i _
    rw [candidate?_eq_none_iff, or_iff_not_imp_left]
    exact fun hrow j hz => (h i j hz).resolve_left hrow

/-! ## Enough steps -/

/-- A step pairs one more row. -/
theorem size_assign_of_choice? (hμ : p.Matches μ) {c : Candidate} (hc : p.choice? μ = some c) :
    (μ.assign c.row c.col).size = μ.size + 1 := by
  obtain ⟨hrow, hz, hcol⟩ := choice?_eq_some hc
  have haug := augmenting_singleton hrow hcol hz
  have hpaired : (μ.assign c.row c.col).pairedRows = insert c.row μ.pairedRows :=
    haug.pairedRows_flip hμ.toFits
  have hnew : c.row ∉ μ.pairedRows := by
    rw [Matching.mem_pairedRows, hrow]
    simp
  rw [Matching.size_eq_card_pairedRows, Matching.size_eq_card_pairedRows, hpaired,
    Finset.card_insert_of_notMem hnew]

/-- With as many pairs as rows no row can be paired. -/
theorem Matches.choice?_of_nrows_le (hμ : p.Matches μ) (h : p.nrows ≤ μ.size) :
    p.choice? μ = none := by
  rw [choice?_eq_none_iff]
  intro i j hz
  refine .inl ?_
  have hcomplete : μ.isComplete = true := by
    rw [μ.isComplete_iff_size]
    exact Nat.le_antisymm μ.size_le_nrows (hμ.nrows_eq ▸ h)
  exact Matching.mem_pairedRows.mpr
    (μ.isComplete_iff.mp hcomplete i (hμ.nrows_eq ▸ hz.lt_nrows))

/-- A step for every row that is open leads to a matching that no step can extend. -/
theorem Matches.choice?_extend (hμ : p.Matches μ) {steps : Nat} (h : p.nrows ≤ μ.size + steps) :
    p.choice? (p.extend steps μ) = none := by
  induction steps generalizing μ with
  | zero => exact hμ.choice?_of_nrows_le h
  | succ steps ih =>
    unfold ZeroPattern.extend
    cases hc : p.choice? μ with
    | none => exact hc
    | some c =>
      refine ih (hμ.assign_of_choice? hc) ?_
      rw [size_assign_of_choice? hμ hc]
      omega

/-- Every zero lies in a row or a column that the greedy matching pairs. -/
theorem covers_greedyMatching (p : ZeroPattern) :
    p.Covers p.greedyMatching.pairedRows p.greedyMatching.pairedCols :=
  choice?_eq_none_iff.mp (p.matches_empty.choice?_extend (Nat.le_add_left ..))

/-- When every zero lies on a paired line, no independent set is more than twice as large as
    the matching: each of its zeros has a paired line to itself. -/
theorem Independent.card_le_two_mul {cells : Finset (Nat × Nat)} (h : p.Independent cells)
    (hμ : μ.Consistent) (hcov : p.Covers μ.pairedRows μ.pairedCols) :
    cells.card ≤ 2 * μ.size := by
  have hle := h.card_le hcov
  rw [← μ.size_eq_card_pairedRows, hμ.card_pairedCols] at hle
  omega

end ZeroPattern

/-! ## The pass in place -/

/-- A greedy pass while it goes on: the pairs so far, and a flag for every line that is done. -/
structure Pass where
  /-- The pairs so far. -/
  matching : Matching
  /-- For each row, whether it is done. -/
  rowDone : List Bool
  /-- For each column, whether it is done. -/
  colDone : List Bool

namespace Pass

/-- The pass over `m` rows and `n` columns before its first pair. -/
def start (m n : Nat) : Pass := ⟨.empty m n, List.replicate m false, List.replicate n false⟩

/-- Row `i` is done; false for a row outside the table. -/
def isRowDone (s : Pass) (i : Nat) : Bool := s.rowDone[i]?.getD false

/-- Column `j` is done; false for a column outside the table. -/
def isColDone (s : Pass) (j : Nat) : Bool := s.colDone[j]?.getD false

/-- Row `i` is paired with column `j`, and both are done. -/
def pair (s : Pass) (i j : Nat) : Pass :=
  ⟨s.matching.assign i j, s.rowDone.set i true, s.colDone.set j true⟩

end Pass

namespace Grid

variable {K : Type} [Scalar K]

/-- The columns not done in which row `i` has a zero, in ascending order. -/
def openZeros (g : Grid K) (s : Pass) (i : Nat) : List Nat :=
  (List.range g.ncols).filter fun j => !s.isColDone j && (g.cell? i j).any Scalar.isZero

/-- The better of the best row so far, with its number of zeros, and row `i`: fewer zeros win,
    and of equals the earlier one stays. -/
def betterRow (g : Grid K) (s : Pass) (best : Option (Nat × Nat)) (i : Nat) :
    Option (Nat × Nat) :=
  let zeros := (g.openZeros s i).length
  if 0 < zeros ∧ best.all (fun (count, _) => zeros < count) then some (zeros, i) else best

/-- The next row to pair, with the number of its zeros, if some row not done has a zero. -/
def nextRow? (g : Grid K) (s : Pass) : Option (Nat × Nat) :=
  ((List.range g.nrows).filter fun i => !s.isRowDone i).foldl (g.betterRow s) none

/-- One turn of the pass: the next row is paired with its first zero.  Without a next row the
    pass stops. -/
def nextPass (g : Grid K) (s : Pass) : Matching ⊕ Pass :=
  match g.nextRow? s with
  | none => .inl s.matching
  | some (_, i) =>
    match g.openZeros s i with
    | [] => .inl s.matching
    | j :: _ => .inr (s.pair i j)

/-- The pass from here on. -/
def runPass (g : Grid K) : Pass → Part Matching := loop g.nextPass

/-- The greedy matching as it is made in place. -/
def greedyInPlace (g : Grid K) : Part Matching := g.runPass (.start g.nrows g.ncols)

end Grid

/-! ## The flags -/

namespace Pass

/-- The lines that are done are the ones that are paired. -/
structure Tracks (s : Pass) : Prop where
  row_eq : ∀ i, s.isRowDone i = (s.matching.col? i).isSome
  col_eq : ∀ j, s.isColDone j = (s.matching.row? j).isSome
  nrows_eq : s.rowDone.length = s.matching.nrows
  ncols_eq : s.colDone.length = s.matching.ncols

theorem tracks_start (m n : Nat) : (start m n).Tracks where
  row_eq i := by by_cases h : i < m <;> simp [start, isRowDone, h]
  col_eq j := by by_cases h : j < n <;> simp [start, isColDone, h]
  nrows_eq := by simp [start]
  ncols_eq := by simp [start]

theorem getD_set_true (flags : List Bool) (i i' : Nat) :
    (flags.set i true)[i']?.getD false =
      if i = i' ∧ i < flags.length then true else flags[i']?.getD false := by
  rw [List.getElem?_set]
  by_cases h : i = i'
  · subst h
    by_cases hi : i < flags.length <;> simp [hi]
  · simp [h]

/-- A pair keeps the flags those of the paired lines. -/
theorem Tracks.pair {s : Pass} (h : s.Tracks) (i j : Nat) : (s.pair i j).Tracks where
  row_eq i' := by
    show (s.rowDone.set i true)[i']?.getD false = ((s.matching.assign i j).col? i').isSome
    rw [getD_set_true, Matching.col?_assign, h.nrows_eq]
    split
    · rfl
    · exact h.row_eq i'
  col_eq j' := by
    show (s.colDone.set j true)[j']?.getD false = ((s.matching.assign i j).row? j').isSome
    rw [getD_set_true, Matching.row?_assign, h.ncols_eq]
    split
    · rfl
    · exact h.col_eq j'
  nrows_eq := by simp [Pass.pair, h.nrows_eq]
  ncols_eq := by simp [Pass.pair, h.ncols_eq]

end Pass

namespace Grid

variable {K : Type} [Scalar K] {g : Grid K} {s : Pass}

/-- The places of the zeros of a row are found by testing its cells one after the other. -/
theorem zeroPlaces_eq_filter (start : Nat) (row : List K) :
    zeroPlaces start row =
      (List.range' start row.length).filter fun j => (row[j - start]?).any Scalar.isZero := by
  induction row generalizing start with
  | nil => rfl
  | cons v vs ih =>
    have htail : (List.range' (start + 1) vs.length).filter
          (fun j => ((v :: vs)[j - start]?).any Scalar.isZero) = zeroPlaces (start + 1) vs := by
      rw [ih]
      refine List.filter_congr fun j hj => ?_
      have hlt : start + 1 ≤ j := (List.mem_range'_1.mp hj).1
      rw [show j - start = (j - (start + 1)) + 1 by omega, List.getElem?_cons_succ]
    unfold zeroPlaces
    rw [List.length_cons, List.range'_succ, List.filter_cons, htail]
    simp

theorem zerosOf_eq_filter (g : Grid K) (i : Nat) :
    g.zeroPattern.zerosOf i =
      (List.range g.ncols).filter fun j => (g.cell? i j).any Scalar.isZero := by
  unfold ZeroPattern.zerosOf zeroPattern cell?
  rw [List.getElem?_map]
  cases hi : g.rows[i]? with
  | none => simp
  | some row =>
    rw [Option.map_some, Option.getD_some, zeroPlaces_eq_filter, g.length_of_getElem? hi,
      ← List.range_eq_range']
    rfl

/-- The zeros left of a row are those in columns that are free. -/
theorem openZeros_eq (hs : s.Tracks) (i : Nat) :
    g.openZeros s i = g.zeroPattern.available s.matching i := by
  unfold openZeros ZeroPattern.available
  rw [zerosOf_eq_filter, List.filter_filter]
  refine List.filter_congr fun j _ => ?_
  rw [hs.col_eq, Option.not_isSome]

/-! ## The same choices -/

/-- What the pass keeps of a candidate: the number of its zeros and its row. -/
def countAndRow (c : ZeroPattern.Candidate) : Nat × Nat := (c.others + 1, c.row)

/-- An open row is compared with the best one so far as candidates are. -/
theorem betterRow_eq (hs : s.Tracks) (best : Option ZeroPattern.Candidate) {i : Nat}
    (hi : s.isRowDone i = false) :
    g.betterRow s (best.map countAndRow) i =
      (match g.zeroPattern.candidate? s.matching i with
        | none => best
        | some c => some (best.elim c (minOn (·.others) · c))).map countAndRow := by
  have hopen : s.matching.col? i = none := by
    rw [hs.row_eq] at hi
    simpa using hi
  rw [ZeroPattern.candidate?_of_open hopen]
  unfold betterRow
  rw [openZeros_eq hs]
  cases g.zeroPattern.available s.matching i with
  | nil => simp
  | cons j js =>
    cases best with
    | none => simp [countAndRow]
    | some c =>
      by_cases hle : c.others ≤ js.length
      · have hnot : ¬ js.length < c.others := by omega
        simp [countAndRow, minOn, hle, hnot]
      · have hlt : js.length < c.others := by omega
        simp [countAndRow, minOn, hle, hlt]

/-- Going through the rows that are not done finds the best of their candidates. -/
theorem foldl_betterRow (hs : s.Tracks) (rows : List Nat) (best : Option ZeroPattern.Candidate) :
    (rows.filter fun i => !s.isRowDone i).foldl (g.betterRow s) (best.map countAndRow) =
      ((best.toList ++ rows.filterMap (g.zeroPattern.candidate? s.matching)).minOn?
        (·.others)).map countAndRow := by
  induction rows generalizing best with
  | nil => cases best <;> rfl
  | cons i rows ih =>
    cases hdone : s.isRowDone i with
    | true =>
      -- A row that is done is paired and no candidate.
      rw [hs.row_eq] at hdone
      obtain ⟨j, hj⟩ := Option.isSome_iff_exists.mp hdone
      have hcand := ZeroPattern.candidate?_of_paired (p := g.zeroPattern) hj
      rw [List.filter_cons_of_neg (by simp [hs.row_eq, hj]), ih, List.filterMap_cons_none hcand]
    | false =>
      rw [List.filter_cons_of_pos (by simp [hdone]), List.foldl_cons, betterRow_eq hs best hdone,
        ih]
      cases hcand : g.zeroPattern.candidate? s.matching i with
      | none => rw [List.filterMap_cons_none hcand]
      | some c =>
        rw [List.filterMap_cons_some hcand]
        cases best <;> rfl

/-- The next row is the row of the next candidate. -/
theorem nextRow?_eq (hs : s.Tracks) :
    g.nextRow? s = (g.zeroPattern.choice? s.matching).map countAndRow := by
  have h := foldl_betterRow (g := g) hs (List.range g.nrows) none
  unfold nextRow? ZeroPattern.choice?
  rw [g.nrows_zeroPattern]
  exact h

/-- The column of a candidate is the first of its free zeros. -/
theorem available_of_choice? {p : ZeroPattern} {μ : Matching} {c : ZeroPattern.Candidate}
    (hc : p.choice? μ = some c) : ∃ js, p.available μ c.row = c.col :: js := by
  obtain ⟨i, _, hi⟩ := List.mem_filterMap.mp (List.minOn?_mem hc)
  obtain ⟨rfl, hrow, _, _⟩ := ZeroPattern.candidate?_eq_some hi
  rw [ZeroPattern.candidate?_of_open hrow] at hi
  cases havail : p.available μ c.row with
  | nil => simp [havail] at hi
  | cons j js =>
    simp only [havail, Option.some_inj] at hi
    exact ⟨js, by rw [← hi]⟩

/-- Without a candidate the pass stops. -/
theorem nextPass_of_none (hs : s.Tracks) (hc : g.zeroPattern.choice? s.matching = none) :
    g.nextPass s = .inl s.matching := by
  have hnext : g.nextRow? s = none := by rw [nextRow?_eq hs, hc, Option.map_none]
  unfold nextPass
  rw [hnext]

/-- The pass goes on with the pair of the next candidate. -/
theorem nextPass_of_some (hs : s.Tracks) {c : ZeroPattern.Candidate}
    (hc : g.zeroPattern.choice? s.matching = some c) :
    g.nextPass s = .inr (s.pair c.row c.col) := by
  have hnext : g.nextRow? s = some (countAndRow c) := by rw [nextRow?_eq hs, hc, Option.map_some]
  obtain ⟨js, havail⟩ := available_of_choice? hc
  have hzeros : g.openZeros s c.row = c.col :: js := (openZeros_eq hs c.row).trans havail
  unfold nextPass
  rw [hnext]
  simp only [countAndRow, hzeros]

/-- **The pass ends**, and it has then made the pairs of as many greedy steps as rows were
    open. -/
theorem runPass_eq (hs : s.Tracks) (hμ : g.zeroPattern.Matches s.matching) {steps : Nat}
    (h : g.nrows ≤ s.matching.size + steps) :
    g.runPass s = .some (g.zeroPattern.extend steps s.matching) := by
  induction steps generalizing s with
  | zero => exact loop_of_inl (nextPass_of_none hs (hμ.choice?_of_nrows_le (by simpa using h)))
  | succ steps ih =>
    unfold ZeroPattern.extend
    cases hc : g.zeroPattern.choice? s.matching with
    | none => exact loop_of_inl (nextPass_of_none hs hc)
    | some c =>
      have hsize := ZeroPattern.size_assign_of_choice? hμ hc
      have hrest := ih (hs.pair c.row c.col) (hμ.assign_of_choice? hc)
        (by show g.nrows ≤ (s.matching.assign c.row c.col).size + steps; omega)
      exact (loop_of_inr (nextPass_of_some hs hc)).trans hrest

/-- The pass in place makes the greedy matching. -/
theorem greedyInPlace_eq (g : Grid K) : g.greedyInPlace = .some g.zeroPattern.greedyMatching := by
  have hmatches := g.zeroPattern.matches_empty
  rw [g.nrows_zeroPattern, g.ncols_zeroPattern] at hmatches
  have h := runPass_eq (Pass.tracks_start g.nrows g.ncols) hmatches (Nat.le_add_left ..)
  unfold greedyInPlace ZeroPattern.greedyMatching
  rw [g.nrows_zeroPattern, g.ncols_zeroPattern]
  exact h

/-! ## Maximality -/

/-- **The greedy pass ends in a maximal matching, at least half as large as any other.**  Its
    pairs are zero cells in different rows and different columns; every zero cell lies in a row
    or in a column of a pair, so no scattered set has more than twice as many cells. -/
theorem greedy_isMaximal (g : Grid K) :
    let μ := g.zeroPattern.greedyMatching
    g.greedyInPlace = .some μ ∧ g.ZeroMatching μ ∧
      (μ.pairs.map Prod.fst).Nodup ∧ (μ.pairs.map Prod.snd).Nodup ∧
      (∀ i j, g.IsZeroAt i j → (∃ j', (i, j') ∈ μ.pairs) ∨ ∃ i', (i', j) ∈ μ.pairs) ∧
      ∀ cells, g.IsScattered cells → cells.card ≤ 2 * μ.size := by
  intro μ
  have hμ := g.zeroPattern.greedyMatching_matches
  have hcov := g.zeroPattern.covers_greedyMatching
  refine ⟨g.greedyInPlace_eq, zeroMatching_iff.mpr hμ, μ.rows_nodup,
    hμ.consistent.cols_nodup, ?_, ?_⟩
  · intro i j hz
    rcases hcov i j (isZeroAt_iff.mp hz) with hrow | hcol
    · obtain ⟨j', hj'⟩ := Matching.mem_pairedRows.mp hrow
      exact .inl ⟨j', Matching.mem_pairs.mpr hj'⟩
    · obtain ⟨i', hi'⟩ := Matching.mem_pairedCols.mp hcol
      exact .inr ⟨i', hμ.consistent.mem_pairs.mpr hi'⟩
  · intro cells hcells
    exact (isScattered_iff.mp hcells).card_le_two_mul hμ.consistent hcov

/-- The row with two zeros that comes first takes the second column, which the others need, so
    the pass stops at two pairs where three are possible. -/
theorem greedy_isMaximal_short :
    let g : Grid Float := ⟨4, [[5, 0, -0.0, 0 / 0], [0, 0, 1 / 0, 1], [0, -0.0, 2, -1 / 0]],
      by decide⟩
    let μ := g.zeroPattern.greedyMatching
    let cells : Finset (Nat × Nat) := {(0, 2), (1, 0), (2, 1)}
    (g.IsZeroAt 2 1 ∧ g.IsScattered cells) ∧ g.greedyInPlace = .some μ ∧
      μ.pairs = [(0, 1), (1, 0)] ∧
      ((∃ j, (2, j) ∈ μ.pairs) ∨ ∃ i, (i, 1) ∈ μ.pairs) ∧ cells.card ≤ 2 * μ.size := by
  intro g μ cells
  obtain ⟨hpass, _, _, _, hlines, hhalf⟩ := greedy_isMaximal g
  have hz : g.IsZeroAt 2 1 := by decide +kernel
  have hcells : g.IsScattered cells :=
    ⟨by decide +kernel, by decide +kernel, by decide +kernel⟩
  exact ⟨⟨hz, hcells⟩, hpass, by decide +kernel, hlines 2 1 hz, hhalf cells hcells⟩

end Grid

end LinearAssignment
