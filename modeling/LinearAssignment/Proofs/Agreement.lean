import Mathlib.Data.List.Forall2
import LinearAssignment.Proofs.Runs

/-! # Values that agree as numbers

    A float type has two zeros, which are equal as numbers and yet two values.  A run that
    starts from values that agree as numbers passes through matrices that agree, cell by cell:
    the zeros lie in the same places, so the matchings and the covers are the same, and the
    value to adjust by, which is not zero, is the same value.

    * `Scalar.Agree`: equal as numbers, or neither is a number.
    * `Scalar.Numeric`: what is asked of the operations.
    * `Grid.Rel`: grids related cell by cell.
    * `Grid.Agree.round_cases`, `Grid.Agree.descend`: one round, then a descent.
    * `Run.agree_outcome`: runs on matrices that agree have outcomes that agree. -/

namespace LinearAssignment

namespace Scalar

variable {K : Type} [Scalar K]

/-- Equal as numbers, or neither is a number. -/
def Agree (a b : K) : Prop := (a == b) = true ∨ isNumber a = false ∧ isNumber b = false

/-- A number type whose operations do not tell apart values that agree.  Two values that agree
    are the same value, unless they are zeros. -/
class Numeric (K : Type) [Scalar K] : Prop where
  isNumber_congr {a b : K} : Agree a b → isNumber a = isNumber b
  isFinite_congr {a b : K} : Agree a b → isFinite a = isFinite b
  isZero_congr {a b : K} : Agree a b → isZero a = isZero b
  lt_congr {a a' b b' : K} : Agree a a' → Agree b b' → (a < b ↔ a' < b')
  add_congr {a a' b b' : K} : Agree a a' → Agree b b' → Agree (a + b) (a' + b')
  sub_congr {a a' b b' : K} : Agree a a' → Agree b b' → Agree (a - b) (a' - b')
  inRange_congr {lo lo' hi hi' : K} (dim : Nat) : Agree lo lo' → Agree hi hi' →
    inRange lo hi dim = inRange lo' hi' dim
  eq_of_agree {a b : K} : Agree a b → isNumber a = true → isZero a = false → a = b

theorem Agree.refl (a : K) : Agree a a := by
  cases h : isNumber a with
  | true => exact .inl h
  | false => exact .inr ⟨h, h⟩

/-! ## Lists -/

theorem mem_of_least?_eq_some {values : List K} {d : K} (h : least? values = some d) :
    d ∈ values ∧ isNumber d = true := by
  induction values generalizing d with
  | nil => cases h
  | cons v vs ih =>
    unfold least? at h
    split at h
    · next hv =>
      split at h
      · obtain rfl := Option.some.inj h
        exact ⟨List.mem_cons_self, hv⟩
      · next m hm =>
        obtain ⟨hmem, hnum⟩ := ih hm
        obtain rfl := Option.some.inj h
        split
        · exact ⟨List.mem_cons_of_mem v hmem, hnum⟩
        · exact ⟨List.mem_cons_self, hv⟩
    · obtain ⟨hmem, hnum⟩ := ih h
      exact ⟨List.mem_cons_of_mem v hmem, hnum⟩

variable [Numeric K] {values values' : List K}

theorem agree_least? (h : List.Forall₂ Agree values values') :
    Option.Rel Agree (least? values) (least? values') := by
  induction h with
  | nil => exact .none
  | @cons v v' vs vs' hv hvs ih =>
    unfold least?
    rw [← Numeric.isNumber_congr hv]
    cases isNumber v with
    | false => exact ih
    | true =>
      simp only [if_true]
      generalize least? vs = m, least? vs' = m' at ih
      cases ih with
      | none => exact .some hv
      | some hm =>
        refine .some ?_
        simp only [← Numeric.lt_congr hm hv]
        split
        · exact hm
        · exact hv

theorem agree_greatest? (h : List.Forall₂ Agree values values') :
    Option.Rel Agree (greatest? values) (greatest? values') := by
  induction h with
  | nil => exact .none
  | @cons v v' vs vs' hv hvs ih =>
    unfold greatest?
    rw [← Numeric.isNumber_congr hv]
    cases isNumber v with
    | false => exact ih
    | true =>
      simp only [if_true]
      generalize greatest? vs = m, greatest? vs' = m' at ih
      cases ih with
      | none => exact .some hv
      | some hm =>
        refine .some ?_
        simp only [← Numeric.lt_congr hv hm]
        split
        · exact hm
        · exact hv

theorem agree_total (h : List.Forall₂ Agree values values') :
    Agree (total values) (total values') := by
  cases h with
  | nil => exact .refl 0
  | cons hv hvs =>
    have hadd : Relator.LiftFun Agree (Relator.LiftFun Agree Agree)
        (fun a b : K => a + b) fun a b => a + b :=
      fun _ _ ha _ _ hb => Numeric.add_congr ha hb
    exact List.rel_foldl hadd hv hvs

end Scalar

/-! ## Grids -/

namespace Grid

open Scalar

variable {K L M N : Type}

/-- Grids of one shape whose cells are related. -/
structure Rel (R : K → L → Prop) (g : Grid K) (h : Grid L) : Prop where
  ncols : g.ncols = h.ncols
  rows : List.Forall₂ (List.Forall₂ R) g.rows h.rows

variable {R : K → L → Prop} {S : M → N → Prop} {g : Grid K} {h : Grid L}

theorem Rel.nrows (hgh : Rel R g h) : g.nrows = h.nrows := hgh.rows.length_eq

theorem Rel.isSquare_eq (hgh : Rel R g h) : g.isSquare = h.isSquare := by
  rw [isSquare, isSquare, hgh.nrows, hgh.ncols]

theorem Rel.dimension_eq (hgh : Rel R g h) : g.dimension = h.dimension := by
  rw [dimension, dimension, hgh.nrows, hgh.ncols]

theorem rel_getElem? {l : List K} {l' : List L} (hl : List.Forall₂ R l l') (i : Nat) :
    Option.Rel R l[i]? l'[i]? := by
  induction hl generalizing i with
  | nil => exact .none
  | cons hv _ ih =>
    cases i with
    | zero => exact .some hv
    | succ i => simpa using ih i

theorem Rel.cell? (hgh : Rel R g h) (i j : Nat) : Option.Rel R (g.cell? i j) (h.cell? i j) := by
  have hrow := rel_getElem? hgh.rows i
  unfold Grid.cell?
  generalize g.rows[i]? = row, h.rows[i]? = row' at hrow
  cases hrow with
  | none => exact .none
  | some hrow => exact rel_getElem? hrow j

theorem forall₂_mapIdx {f : Nat → K → M} {f' : Nat → L → N}
    (hf : ∀ i v v', R v v' → S (f i v) (f' i v')) {l : List K} {l' : List L}
    (hl : List.Forall₂ R l l') : List.Forall₂ S (l.mapIdx f) (l'.mapIdx f') := by
  induction hl generalizing f f' with
  | nil => exact .nil
  | cons hv _ ih =>
    rw [List.mapIdx_cons, List.mapIdx_cons]
    exact .cons (hf 0 _ _ hv) (ih fun i => hf (i + 1))

theorem Rel.mapIdx (hgh : Rel R g h) {f : Nat → Nat → K → M} {f' : Nat → Nat → L → N}
    (hf : ∀ i j v v', R v v' → S (f i j v) (f' i j v')) :
    Rel S (g.mapIdx f) (h.mapIdx f') where
  ncols := hgh.ncols
  rows := by
    unfold Grid.mapIdx
    refine forall₂_mapIdx ?_ hgh.rows
    intro i row row' hrow
    exact forall₂_mapIdx (hf i) hrow

theorem rel_ofFn (m n : Nat) {f : Nat → Nat → M} {f' : Nat → Nat → N}
    (hf : ∀ i j, S (f i j) (f' i j)) : Rel S (ofFn m n f) (ofFn m n f') where
  ncols := rfl
  rows := by
    simp only [ofFn, List.forall₂_map_left_iff, List.forall₂_map_right_iff]
    exact List.forall₂_same.mpr fun i _ => List.forall₂_same.mpr fun j _ => hf i j

theorem Rel.cells (hgh : Rel R g h) : List.Forall₂ R g.cells h.cells :=
  List.rel_flatten hgh.rows

theorem Rel.columns (hgh : Rel R g h) : List.Forall₂ (List.Forall₂ R) g.columns h.columns := by
  unfold Grid.columns
  rw [hgh.ncols, List.forall₂_map_left_iff, List.forall₂_map_right_iff]
  exact List.forall₂_same.mpr fun j _ =>
    List.rel_filterMap (fun _ _ hrow => rel_getElem? hrow j) hgh.rows

/-! ## Stages -/

variable [Scalar K]

/-- Grids of one shape whose cells agree as numbers. -/
abbrev Agree (g h : Grid K) : Prop := Rel Scalar.Agree g h

variable {g h : Grid K}

theorem Agree.balanced (hgh : Agree g h) : Agree g.balanced h.balanced := by
  unfold Grid.balanced
  rw [hgh.isSquare_eq, hgh.dimension_eq]
  split
  · exact hgh
  · refine rel_ofFn _ _ fun i j => ?_
    have hcell := hgh.cell? i j
    generalize g.cell? i j = v, h.cell? i j = v' at hcell
    cases hcell with
    | none => exact .refl 0
    | some hv => exact hv

theorem Agree.uncovered (hgh : Agree g h) (lines : LineCover) :
    List.Forall₂ Scalar.Agree (g.uncovered lines) (h.uncovered lines) := by
  refine List.rel_filterMap (R := Option.Rel Scalar.Agree) (fun _ _ hv => hv) (Rel.cells ?_)
  refine hgh.mapIdx fun i j v v' hv => ?_
  split
  · exact .some hv
  · exact .none

/-- A value on no line of a cover is not zero. -/
theorem isZero_of_mem_uncovered {μ : Matching} {v : K}
    (hv : v ∈ g.uncovered (g.zeroPattern.cover μ)) : isZero v = false := by
  obtain ⟨i, j, hcell, huncovered⟩ := mem_uncovered.mp hv
  obtain ⟨_, _, hmarked, hcol⟩ := ZeroPattern.isUncovered_cover_iff.mp huncovered
  rw [← Bool.not_eq_true]
  intro hzero
  exact hcol (hmarked.markedCol ((isZero_zeroPattern_iff g i j).mpr ⟨v, hcell, hzero⟩))

variable [Numeric K]

theorem Agree.complement (hgh : Agree g h) : Agree g.complement h.complement := by
  have htop := agree_greatest? hgh.cells
  unfold Grid.complement Grid.greatest?
  generalize Scalar.greatest? g.cells = top, Scalar.greatest? h.cells = top' at htop
  cases htop with
  | none => exact hgh
  | some htop => exact hgh.mapIdx fun _ _ _ _ hv => Numeric.sub_congr htop hv

theorem agree_lowerBy {smallest smallest' : Option K}
    (hmin : Option.Rel Scalar.Agree smallest smallest') {v v' : K} (hv : Scalar.Agree v v') :
    Scalar.Agree (lowerBy smallest v) (lowerBy smallest' v') := by
  cases hmin with
  | none => exact hv
  | some hmin =>
    unfold lowerBy
    simp only [← Numeric.isZero_congr hmin]
    split
    · exact hv
    · exact Numeric.sub_congr hv hmin

/-- The smallest values of lines whose cells agree. -/
theorem agree_minima {lines lines' : List (List K)}
    (hlines : List.Forall₂ (List.Forall₂ Scalar.Agree) lines lines') (k : Nat) :
    Option.Rel Scalar.Agree ((lines.map least?)[k]?.getD none)
      ((lines'.map least?)[k]?.getD none) := by
  have hline := rel_getElem? hlines k
  rw [List.getElem?_map, List.getElem?_map]
  generalize lines[k]? = line, lines'[k]? = line' at hline
  cases hline with
  | none => exact .none
  | some hline => exact agree_least? hline

theorem Agree.reduceRows (hgh : Agree g h) : Agree g.reduceRows h.reduceRows :=
  hgh.mapIdx fun i _ _ _ hv => agree_lowerBy (agree_minima hgh.rows i) hv

theorem Agree.reduceColumns (hgh : Agree g h) : Agree g.reduceColumns h.reduceColumns :=
  hgh.mapIdx fun _ j _ _ hv => agree_lowerBy (agree_minima hgh.columns j) hv

theorem zeroPlaces_congr {row row' : List K} (hrow : List.Forall₂ Scalar.Agree row row')
    (start : Nat) : zeroPlaces start row = zeroPlaces start row' := by
  induction hrow generalizing start with
  | nil => rfl
  | cons hv _ ih => rw [zeroPlaces, zeroPlaces, Numeric.isZero_congr hv, ih]

/-- **The zeros lie in the same places.** -/
theorem Agree.zeroPattern_eq (hgh : Agree g h) : g.zeroPattern = h.zeroPattern := by
  have hzeros : g.rows.map (zeroPlaces 0) = h.rows.map (zeroPlaces 0) := by
    rw [← List.forall₂_eq_eq_eq, List.forall₂_map_left_iff, List.forall₂_map_right_iff]
    exact hgh.rows.imp fun _ _ hrow => zeroPlaces_congr hrow 0
  unfold Grid.zeroPattern
  simp only [hgh.ncols, hzeros]

/-- **The value to adjust by is the same value**, and so is the defect when there is none. -/
theorem Agree.minUncovered_eq (hgh : Agree g h) (μ : Matching) :
    g.minUncovered (g.zeroPattern.cover μ) = h.minUncovered (g.zeroPattern.cover μ) := by
  have hleast := agree_least? (hgh.uncovered (g.zeroPattern.cover μ))
  have hmem : ∀ d, least? (g.uncovered (g.zeroPattern.cover μ)) = some d →
      isNumber d = true ∧ isZero d = false := by
    intro d hd
    obtain ⟨hmem, hnum⟩ := mem_of_least?_eq_some hd
    exact ⟨hnum, isZero_of_mem_uncovered hmem⟩
  -- Values that agree and are not zero are one value, and then all that follows is the same.
  unfold Grid.minUncovered
  generalize least? (g.uncovered _) = d, least? (h.uncovered _) = d' at hleast hmem
  cases hleast with
  | none => rfl
  | some hd =>
    obtain ⟨hnum, hzero⟩ := hmem _ rfl
    rw [Numeric.eq_of_agree hd hnum hzero]

theorem Agree.adjustBy (hgh : Agree g h) (lines : LineCover) (d : K) :
    Agree (g.adjustBy lines d) (h.adjustBy lines d) := by
  refine hgh.mapIdx fun i j v v' hv => ?_
  split
  · exact Numeric.sub_congr hv (.refl d)
  · split
    · exact Numeric.add_congr hv (.refl d)
    · exact hv

end Grid

variable {K : Type} [Scalar K]

/-! ## Rounds -/

/-- Rounds that do the same to matrices that agree. -/
structure Round.Agree (r s : Round K) : Prop where
  matching : r.matching = s.matching
  lines : r.lines = s.lines
  value : r.value = s.value
  matrix : r.matrix.Agree s.matrix

namespace Grid

variable [Scalar.Numeric K] {g h : Grid K}

/-- **Matrices that agree come to one ending, or allow rounds that agree.** -/
theorem Agree.round_cases (hgh : Agree g h) :
    (∃ ending, g.round = .error ending ∧ h.round = .error ending) ∨
      ∃ r s, g.round = .ok r ∧ h.round = .ok s ∧ r.Agree s := by
  -- The matching and the cover are read off the zeros, so they are the same for both.
  unfold Grid.round
  simp only [← hgh.zeroPattern_eq]
  generalize hμ : g.zeroPattern.maximumMatching = μ
  by_cases hcomplete : μ.isComplete = true
  · rw [if_pos hcomplete, if_pos hcomplete]
    exact .inl ⟨_, rfl, rfl⟩
  · rw [if_neg hcomplete, if_neg hcomplete]
    by_cases hsize : (g.zeroPattern.cover μ).size = μ.size
    · rw [if_pos hsize, if_pos hsize, Grid.adjust, Grid.adjust, ← hgh.minUncovered_eq μ]
      cases g.minUncovered (g.zeroPattern.cover μ) with
      | error defect => exact .inl ⟨_, rfl, rfl⟩
      | ok d => exact .inr ⟨_, _, rfl, rfl, rfl, rfl, rfl, hgh.adjustBy _ d⟩
    · rw [if_neg hsize, if_neg hsize]
      exact .inl ⟨_, rfl, rfl⟩

/-- **Descents from matrices that agree make rounds that agree and end alike.** -/
theorem Agree.descend (budget : Nat) (hgh : Agree g h) :
    List.Forall₂ Round.Agree (g.descend budget).rounds (h.descend budget).rounds ∧
      (g.descend budget).ending = (h.descend budget).ending := by
  induction budget generalizing g h with
  | zero =>
    unfold Grid.descend
    rcases hgh.round_cases with ⟨ending, hg, hh⟩ | ⟨r, s, hg, hh, hrs⟩
    · rw [hg, hh]
      exact ⟨.nil, rfl⟩
    · rw [hg, hh]
      exact ⟨.cons hrs .nil, rfl⟩
  | succ budget ih =>
    unfold Grid.descend
    rcases hgh.round_cases with ⟨ending, hg, hh⟩ | ⟨r, s, hg, hh, hrs⟩
    · rw [hg, hh]
      exact ⟨.nil, rfl⟩
    · rw [hg, hh]
      obtain ⟨hrounds, hending⟩ := ih hrs.matrix
      exact ⟨.cons hrs hrounds, hending⟩

end Grid

/-! ## Runs -/

/-- Snapshots with one label, of matrices that agree. -/
structure Step.Agree (step step' : Step K) : Prop where
  label : step.label = step'.label
  matrix : List.Forall₂ (List.Forall₂ Scalar.Agree) step.matrix step'.matrix

/-- Solutions that agree as numbers: the same pairs for the same costs. -/
structure Solution.Agree (sol sol' : Solution K) : Prop where
  source : sol.source.toGrid.Agree sol'.source.toGrid
  assignment : sol.assignment = sol'.assignment
  totalCost : Scalar.Agree sol.totalCost sol'.totalCost
  objective : sol.objective = sol'.objective
  trace : List.Forall₂ Step.Agree sol.trace sol'.trace
  padding : sol.padding = sol'.padding
  adjustments : sol.adjustments = sol'.adjustments

/-- Failures that agree as numbers: one kind, and fields that are equal or agree. -/
inductive Failure.Agree : Failure K → Failure K → Prop where
  | same (failure : Failure K) : Agree failure failure
  | range {lo lo' hi hi' : K} : Scalar.Agree lo lo' → Scalar.Agree hi hi' →
      Agree (.valueRangeOverflow (some (lo, hi))) (.valueRangeOverflow (some (lo', hi')))

/-- Outcomes that agree as numbers. -/
inductive OutcomesAgree :
    Except (Failure K) (Solution K) → Except (Failure K) (Solution K) → Prop where
  | failed {failure failure' : Failure K} : failure.Agree failure' →
      OutcomesAgree (.error failure) (.error failure')
  | solved {sol sol' : Solution K} : sol.Agree sol' → OutcomesAgree (.ok sol) (.ok sol')

theorem Grid.Agree.step {g h : Grid K} (hgh : g.Agree h) (label : String) :
    Step.Agree (.ofGrid label g) (.ofGrid label h) :=
  ⟨rfl, hgh.rows⟩

theorem Descent.agree_steps {d e : Descent K} (h : List.Forall₂ Round.Agree d.rounds e.rounds) :
    List.Forall₂ Step.Agree d.steps e.steps := by
  unfold Descent.steps
  rw [List.forall₂_map_left_iff, List.forall₂_map_right_iff]
  refine h.imp fun r s hrs => ?_
  rw [hrs.value]
  exact hrs.matrix.step _

namespace Run

variable {a b : CostMatrix K}

theorem padding_eq_of_agree (c : Config) (hab : a.toGrid.Agree b.toGrid) :
    (ofSource c a).padding = (ofSource c b).padding := by
  show Padding.ofShape a.nrows a.ncols = Padding.ofShape b.nrows b.ncols
  rw [hab.nrows, hab.ncols]

variable [Scalar.Numeric K]

theorem agree_costs (o : Objective) (hab : a.toGrid.Agree b.toGrid) :
    (o.costs a.toGrid).Agree (o.costs b.toGrid) := by
  cases o with
  | minimize => exact hab
  | maximize => exact hab.complement

/-- The descents of runs on matrices that agree. -/
theorem agree_descent (c : Config) (hab : a.toGrid.Agree b.toGrid) :
    List.Forall₂ Round.Agree (ofSource c a).descent.rounds (ofSource c b).descent.rounds ∧
      (ofSource c a).descent.ending = (ofSource c b).descent.ending := by
  have hreduced : (ofSource c a).reduced.Agree (ofSource c b).reduced :=
    (agree_costs c.objective hab).balanced.reduceRows.reduceColumns
  have hdescend := hreduced.descend (roundBudget (ofSource c a).reduced.nrows)
  have hb : (ofSource c b).descent =
      (ofSource c b).reduced.descend (roundBudget (ofSource c a).reduced.nrows) := by
    rw [hreduced.nrows]
    rfl
  rw [hb]
  exact hdescend

theorem agree_trace (c : Config) (hab : a.toGrid.Agree b.toGrid) :
    List.Forall₂ Step.Agree (ofSource c a).trace (ofSource c b).trace := by
  have hcosts := agree_costs c.objective hab
  have hbalanced := hcosts.balanced
  -- The trace is made of five pieces, and two of them may be missing, in both runs alike.
  have hconversion : List.Forall₂ Step.Agree
      (if c.objective.isMaximize then
        [Step.ofGrid "Convert maximization to minimization" (ofSource c a).costs] else [])
      (if c.objective.isMaximize then
        [Step.ofGrid "Convert maximization to minimization" (ofSource c b).costs] else []) := by
    split
    · exact .cons (hcosts.step _) .nil
    · exact .nil
  have hsquaring : List.Forall₂ Step.Agree
      ((ofSource c a).padding.label?.map fun label =>
        Step.ofGrid label (ofSource c a).balanced).toList
      ((ofSource c b).padding.label?.map fun label =>
        Step.ofGrid label (ofSource c b).balanced).toList := by
    rw [padding_eq_of_agree c hab]
    cases (ofSource c b).padding.label? with
    | none => exact .nil
    | some label => exact .cons (hbalanced.step label) .nil
  have hreduction : List.Forall₂ Step.Agree
      [Step.ofGrid "Row reduction" (ofSource c a).rowReduced,
        Step.ofGrid "Column reduction" (ofSource c a).reduced]
      [Step.ofGrid "Row reduction" (ofSource c b).rowReduced,
        Step.ofGrid "Column reduction" (ofSource c b).reduced] :=
    .cons (hbalanced.reduceRows.step _)
      (.cons (hbalanced.reduceRows.reduceColumns.step _) .nil)
  have hsteps : List.Forall₂ Step.Agree (ofSource c a).steps (ofSource c b).steps :=
    List.rel_append (List.rel_append (List.rel_append (List.rel_append
      (.cons (hab.step "Input matrix") .nil) hconversion) hsquaring) hreduction)
      (Descent.agree_steps (agree_descent c hab).1)
  show List.Forall₂ Step.Agree (if c.recordTrace then _ else _) (if c.recordTrace then _ else _)
  split
  · exact hsteps
  · exact List.forall₂_take 1 hsteps

theorem agree_costOf (c : Config) (hab : a.toGrid.Agree b.toGrid) (assignment : List Pair) :
    Scalar.Agree ((ofSource c a).costOf assignment) ((ofSource c b).costOf assignment) := by
  refine Scalar.agree_total ?_
  have hcell : Relator.LiftFun Eq (Option.Rel Scalar.Agree)
      (fun p : Pair => a.cell? p.row p.col) fun p => b.cell? p.row p.col := by
    rintro p _ rfl
    exact hab.cell? p.row p.col
  exact List.rel_filterMap hcell (List.forall₂_same.mpr fun _ _ => rfl)

theorem agree_solutionOf (c : Config) (hab : a.toGrid.Agree b.toGrid) (μ : Matching) :
    ((ofSource c a).solutionOf μ).Agree ((ofSource c b).solutionOf μ) := by
  have hpairs : (ofSource c a).realPairs μ = (ofSource c b).realPairs μ := by
    have hrows : (ofSource c a).source.nrows = (ofSource c b).source.nrows := hab.nrows
    have hcols : (ofSource c a).source.ncols = (ofSource c b).source.ncols := hab.ncols
    rw [realPairs, realPairs, hrows, hcols]
  exact {
    source := hab
    assignment := hpairs
    totalCost := by
      show Scalar.Agree ((ofSource c a).costOf ((ofSource c a).realPairs μ)) _
      rw [hpairs]
      exact agree_costOf c hab _
    objective := rfl
    trace := agree_trace c hab
    padding := padding_eq_of_agree c hab
    adjustments := by
      rw [adjustments_solutionOf, adjustments_solutionOf, (agree_descent c hab).1.length_eq] }

/-- **Runs on matrices that agree have outcomes that agree.** -/
theorem agree_outcome (c : Config) (hab : a.toGrid.Agree b.toGrid) :
    OutcomesAgree (ofSource c a).outcome (ofSource c b).outcome := by
  obtain ⟨hrounds, hending⟩ := agree_descent c hab
  unfold outcome Descent.outcome
  rw [hending]
  cases (ofSource c b).descent.ending with
  | complete μ => exact .solved (agree_solutionOf c hab μ)
  | stuck μ lines defect => exact .failed (.same _)
  | exhausted =>
    rw [hrounds.length_eq]
    exact .failed (.same _)

end Run

end LinearAssignment
