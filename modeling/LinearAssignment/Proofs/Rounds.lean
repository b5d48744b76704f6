import Mathlib.Data.Nat.Choose.Basic
import LinearAssignment.Descent
import LinearAssignment.Proofs.Progress

/-! # Rounds of adjustment and how many there are

    A descent is a chain of rounds, each made on the matrix that the one before left behind.
    This module opens the recursion once: what one round does, what a chain of rounds keeps,
    and how a descent ends.

    The progress measure of a working matrix is its rank.  With a largest matching of `k`
    pairs and `q` columns marked it is `k * (k - 1) / 2 + (q - 1)`: a round marks more
    columns, of which there are at most `k`, or it finds a matching of more pairs, which is
    worth more than any number of columns marked before.

    * `Grid.IsRound`, `Grid.round_eq_ok_iff`: all that a round does.
    * `Rounds`: chains of rounds; `Rounds.isReduced` is the invariant of a whole chain.
    * `InStep.rounds_descend`: descents from related matrices.
    * `Rounds.length_le`: a square matrix with `n` rows allows `n * (n - 1) / 2` rounds.
    * `Grid.IsReduced.exists_complete`: a descent from a reduced square matrix ends in a
      complete matching. -/

namespace LinearAssignment

variable {K : Type} [Scalar K]

/-! ## One round -/

/-- All that a round on a working matrix does. -/
structure Grid.IsRound (g : Grid K) (r : Round K) : Prop where
  matching : r.matching = g.zeroPattern.maximumMatching
  incomplete : r.matching.isComplete = false
  lines : r.lines = g.zeroPattern.cover r.matching
  size : r.lines.size = r.matching.size
  value : g.minUncovered r.lines = .ok r.value
  matrix : r.matrix = g.adjustBy r.lines r.value

theorem Grid.round_eq_ok_iff {g : Grid K} {r : Round K} :
    g.round = .ok r ↔ g.IsRound r := by
  unfold Grid.round
  simp only
  -- One case for each way in which there is no round, and one for the round made.
  split
  · next hcomplete =>
    refine iff_of_false (by simp) fun h => ?_
    have hinc := h.incomplete
    rw [h.matching, hcomplete] at hinc
    cases hinc
  · next hcomplete =>
    split
    · next hsize =>
      split
      · next defect hadj =>
        refine iff_of_false (by simp) fun h => ?_
        have hval := h.value
        rw [h.lines, h.matching] at hval
        simp [Grid.adjust, hval, Except.map] at hadj
      · next d g' hadj =>
        obtain ⟨hval, rfl⟩ := (Grid.adjust_eq_ok_iff ..).mp hadj
        constructor
        · intro h
          obtain rfl := Except.ok.inj h
          exact ⟨rfl, by simpa using hcomplete, rfl, hsize, hval, rfl⟩
        · intro h
          obtain ⟨matching, lines, value, matrix⟩ := r
          obtain rfl : matching = g.zeroPattern.maximumMatching := h.matching
          obtain rfl : lines = g.zeroPattern.cover g.zeroPattern.maximumMatching := h.lines
          obtain rfl : d = value := Except.ok.inj (hval.symm.trans h.value)
          obtain rfl : matrix =
              g.adjustBy (g.zeroPattern.cover g.zeroPattern.maximumMatching) d := h.matrix
          rfl
    · next hsize =>
      refine iff_of_false (by simp) fun h => hsize ?_
      have := h.size
      rwa [h.lines, h.matching] at this

theorem Grid.round_eq_complete_iff {g : Grid K} {μ : Matching} :
    g.round = .error (.complete μ) ↔
      μ = g.zeroPattern.maximumMatching ∧ μ.isComplete = true := by
  unfold Grid.round
  simp only
  split
  · next hcomplete =>
    simp only [Except.error.injEq, Ending.complete.injEq]
    constructor
    · intro h
      exact ⟨h.symm, h ▸ hcomplete⟩
    · exact fun h => h.1.symm
  · next hcomplete =>
    have hfalse : ¬ (μ = g.zeroPattern.maximumMatching ∧ μ.isComplete = true) := by
      intro h
      exact hcomplete (h.1 ▸ h.2)
    refine iff_of_false ?_ hfalse
    split
    · split <;> simp
    · simp

/-! ## Chains of rounds -/

/-- The rounds lead from the first matrix to the last, each made on the matrix that the one
    before left. -/
inductive Rounds : Grid K → List (Round K) → Grid K → Prop where
  | nil (g : Grid K) : Rounds g [] g
  | cons {g h : Grid K} {r : Round K} {rs : List (Round K)} : g.IsRound r →
      Rounds r.matrix rs h → Rounds g (r :: rs) h

/-- The working matrices of a descent from `g`: `g` itself and what each round left. -/
def Descent.matrices (d : Descent K) (g : Grid K) : List (Grid K) :=
  g :: d.rounds.map (·.matrix)

/-- The rounds lead to the last of the working matrices. -/
theorem Rounds.getLast?_matrices {g h : Grid K} {rs : List (Round K)} (hrs : Rounds g rs h) :
    (g :: rs.map (·.matrix)).getLast? = some h := by
  induction hrs with
  | nil g => rfl
  | cons _ _ ih =>
    rw [List.map_cons, List.getLast?_cons_cons]
    exact ih

/-- The rounds up to a working matrix lead to it. -/
theorem Rounds.take {g h : Grid K} {rs : List (Round K)} (hrs : Rounds g rs h) {t : Nat}
    {w : Grid K} (hw : (g :: rs.map (·.matrix))[t]? = some w) : Rounds g (rs.take t) w := by
  -- The place is counted down along the chain.
  induction hrs generalizing t with
  | nil g =>
    cases t with
    | zero =>
      obtain rfl : g = w := by simpa using hw
      exact .nil g
    | succ t => simp at hw
  | @cons g h r rs hr _ ih =>
    cases t with
    | zero =>
      obtain rfl : g = w := by simpa using hw
      exact .nil g
    | succ t => exact .cons hr (ih (by simpa using hw))

/-- Each round is made on the working matrix of its place. -/
theorem Rounds.isRound {g h : Grid K} {rs : List (Round K)} (hrs : Rounds g rs h) {t : Nat}
    {w : Grid K} {r : Round K} (hw : (g :: rs.map (·.matrix))[t]? = some w)
    (hr : rs[t]? = some r) : w.IsRound r := by
  induction hrs generalizing t with
  | nil g => simp at hr
  | @cons g h r' rs hr' _ ih =>
    cases t with
    | zero =>
      obtain rfl : g = w := by simpa using hw
      obtain rfl : r' = r := by simpa using hr
      exact hr'
    | succ t => exact ih (by simpa using hw) (by simpa using hr)

theorem Rounds.shape {g h : Grid K} {rs : List (Round K)} (hrs : Rounds g rs h) :
    h.nrows = g.nrows ∧ h.ncols = g.ncols := by
  induction hrs with
  | nil g => exact ⟨rfl, rfl⟩
  | cons hr _ ih =>
    rw [hr.matrix] at ih
    simpa using ih

/-- How a descent ends: the last matrix allows no further round, or the budget is used up. -/
theorem Grid.descend_spec (budget : Nat) (g : Grid K) :
    ∃ h, Rounds g (g.descend budget).rounds h ∧
      (h.round = .error (g.descend budget).ending ∨
        ((g.descend budget).ending = .exhausted ∧
          (g.descend budget).rounds.length = budget + 1)) := by
  -- The induction is on the budget; a round made leaves the rest of the descent to it.
  induction budget generalizing g with
  | zero =>
    unfold Grid.descend
    cases hr : g.round with
    | error ending => exact ⟨g, .nil g, .inl hr⟩
    | ok r => exact ⟨r.matrix, .cons (Grid.round_eq_ok_iff.mp hr) (.nil _), .inr ⟨rfl, rfl⟩⟩
  | succ budget ih =>
    unfold Grid.descend
    cases hr : g.round with
    | error ending => exact ⟨g, .nil g, .inl hr⟩
    | ok r =>
      obtain ⟨h, hrounds, hend⟩ := ih r.matrix
      exact ⟨h, .cons (Grid.round_eq_ok_iff.mp hr) hrounds, by simpa using hend⟩

/-- A descent that ends in a complete matching found it on its last working matrix. -/
theorem Grid.descend_complete {budget : Nat} {g : Grid K} {μ : Matching}
    (h : (g.descend budget).ending = .complete μ) :
    ∃ w, Rounds g (g.descend budget).rounds w ∧ μ = w.zeroPattern.maximumMatching ∧
      μ.isComplete = true := by
  obtain ⟨w, hrounds, hround | ⟨hexhausted, _⟩⟩ := g.descend_spec budget
  · rw [h, Grid.round_eq_complete_iff] at hround
    exact ⟨w, hrounds, hround⟩
  · rw [h] at hexhausted
    cases hexhausted

/-! ## Descents in step -/

/-- Rounds on related matrices are alike and leave related matrices, and where one of two
    related matrices allows a round the other does. -/
structure InStep {L : Type} [Scalar L] (Related : Grid K → Grid L → Prop)
    (Alike : Round K → Round L → Prop) : Prop where
  forth : ∀ g h, Related g h → ∀ r, g.IsRound r →
    ∃ s, h.IsRound s ∧ Alike r s ∧ Related r.matrix s.matrix
  back : ∀ g h, Related g h → ∀ s, h.IsRound s → ∃ r, g.IsRound r

namespace InStep

variable {L : Type} [Scalar L] {Related : Grid K → Grid L → Prop}
  {Alike : Round K → Round L → Prop} {g : Grid K} {h : Grid L}

/-- On related matrices there is no round, or there are alike rounds. -/
theorem round_cases (hstep : InStep Related Alike) (hgh : Related g h) :
    (∃ e e', g.round = .error e ∧ h.round = .error e') ∨
      ∃ r s, g.round = .ok r ∧ h.round = .ok s ∧ Alike r s ∧ Related r.matrix s.matrix := by
  cases hr : g.round with
  | ok r =>
    obtain ⟨s, hs, halike, hrelated⟩ := hstep.forth g h hgh r (Grid.round_eq_ok_iff.mp hr)
    exact .inr ⟨r, s, rfl, Grid.round_eq_ok_iff.mpr hs, halike, hrelated⟩
  | error e =>
    cases hs : h.round with
    | error e' => exact .inl ⟨e, e', rfl, rfl⟩
    | ok s =>
      obtain ⟨r, hr'⟩ := hstep.back g h hgh s (Grid.round_eq_ok_iff.mp hs)
      rw [Grid.round_eq_ok_iff.mpr hr'] at hr
      cases hr

/-- **Descents from related matrices make alike rounds, as many in one as in the other.** -/
theorem rounds_descend (hstep : InStep Related Alike) (budget : Nat) (hgh : Related g h) :
    List.Forall₂ Alike (g.descend budget).rounds (h.descend budget).rounds := by
  induction budget generalizing g h with
  | zero =>
    unfold Grid.descend
    rcases hstep.round_cases hgh with ⟨e, e', hr, hs⟩ | ⟨r, s, hr, hs, halike, _⟩
    · rw [hr, hs]
      exact .nil
    · rw [hr, hs]
      exact .cons halike .nil
  | succ budget ih =>
    unfold Grid.descend
    rcases hstep.round_cases hgh with ⟨e, e', hr, hs⟩ | ⟨r, s, hr, hs, halike, hrelated⟩
    · rw [hr, hs]
      exact .nil
    · rw [hr, hs]
      exact .cons halike (ih hrelated)

/-- **When related matrices have their zeros in the same places, a complete matching that ends
    one descent ends the other.** -/
theorem complete_descend (hstep : InStep Related Alike)
    (hzeros : ∀ g h, Related g h → h.zeroPattern = g.zeroPattern) (budget : Nat)
    (hgh : Related g h) {μ : Matching} (hμ : (g.descend budget).ending = .complete μ) :
    (h.descend budget).ending = .complete μ := by
  -- Where there is no round, the ending is read off the zeros.
  have hlast : ∀ {g : Grid K} {h : Grid L}, Related g h → g.round = .error (.complete μ) →
      h.round = .error (.complete μ) := by
    intro g h hgh hround
    rw [Grid.round_eq_complete_iff] at hround ⊢
    rwa [hzeros g h hgh]
  induction budget generalizing g h with
  | zero =>
    unfold Grid.descend at hμ ⊢
    rcases hstep.round_cases hgh with ⟨e, e', hr, hs⟩ | ⟨r, s, hr, hs, _, _⟩
    · rw [hr] at hμ
      obtain rfl : e = .complete μ := hμ
      rw [hlast hgh hr]
    · rw [hr] at hμ
      cases hμ
  | succ budget ih =>
    unfold Grid.descend at hμ ⊢
    rcases hstep.round_cases hgh with ⟨e, e', hr, hs⟩ | ⟨r, s, hr, hs, _, hrelated⟩
    · rw [hr] at hμ
      obtain rfl : e = .complete μ := hμ
      rw [hlast hgh hr]
    · rw [hr] at hμ
      rw [hs]
      exact ih hrelated hμ

end InStep

/-- The lines of a round come from a maximum matching. -/
theorem Grid.IsRound.isMaximum {g : Grid K} {r : Round K} (hr : g.IsRound r) :
    g.zeroPattern.IsMaximum r.matching :=
  hr.matching ▸ ZeroPattern.maximumMatching_isMaximum _

/-! ## The rank -/

/-- Progress measure of a working matrix: a pair is worth more than all columns that can be
    marked before it is found. -/
def Grid.rank (g : Grid K) : Nat :=
  let μ := g.zeroPattern.maximumMatching
  μ.size.choose 2 + ((g.zeroPattern.cover μ).colSet.card - 1)

theorem choose_two_succ (k : Nat) : (k + 1).choose 2 = k.choose 2 + k := by
  rw [Nat.choose_succ_succ, Nat.choose_one_right, Nat.add_comm]

theorem choose_two_add_le {k n : Nat} (h : k < n) : k.choose 2 + k ≤ n.choose 2 := by
  rw [← choose_two_succ]
  exact Nat.choose_le_choose 2 h

/-- No more columns than pairs are chosen as lines. -/
theorem ZeroPattern.IsMaximum.card_colSet_le {p : ZeroPattern} {μ : Matching}
    (hμ : p.IsMaximum μ) : (p.cover μ).colSet.card ≤ μ.size := by
  have hsize := hμ.size_cover
  rw [LineCover.size_eq_card] at hsize
  omega

/-- Something is marked while a maximum matching of a reduced matrix is incomplete. -/
theorem card_colSet_pos {g : Grid K} {μ : Matching} (hg : g.IsReduced)
    (hμ : g.zeroPattern.Fits μ) (hinc : μ.isComplete = false) :
    0 < (g.zeroPattern.cover μ).colSet.card := by
  obtain ⟨i, hi, hnone⟩ := hμ.exists_unpaired hinc
  obtain ⟨j, hz⟩ := hg.row_zero i (by simpa using hi)
  have hmarked : g.zeroPattern.Marked μ i :=
    .root (ZeroPattern.mem_unpairedRows.mpr ⟨hi, hnone⟩)
  exact Finset.card_pos.mpr ⟨j, ZeroPattern.mem_colSet_cover.mpr (hmarked.markedCol hz)⟩

/-- Nothing is marked when every row is paired. -/
theorem ZeroPattern.Fits.colSet_eq_empty {p : ZeroPattern} {μ : Matching} (hμ : p.Fits μ)
    (hcomplete : μ.isComplete = true) : (p.cover μ).colSet = ∅ := by
  rw [Finset.eq_empty_iff_forall_notMem]
  intro j hj
  obtain ⟨i, hi, _⟩ := (mem_colSet_cover.mp hj).exists_root
  obtain ⟨hlt, hnone⟩ := mem_unpairedRows.mp hi
  obtain ⟨c, hc⟩ := μ.isComplete_iff.mp hcomplete i (hμ.nrows_eq ▸ hlt)
  rw [hnone] at hc
  cases hc

/-- The rank of a matrix with `n` rows is at most `n * (n - 1) / 2`. -/
theorem Grid.rank_le (g : Grid K) : g.rank ≤ g.nrows.choose 2 := by
  have hmax := g.zeroPattern.maximumMatching_isMaximum
  have hcols := hmax.card_colSet_le
  unfold Grid.rank
  simp only
  cases hinc : g.zeroPattern.maximumMatching.isComplete with
  | false =>
    -- Fewer pairs than rows: the columns marked do not make up for the next pair.
    have hlt : g.zeroPattern.maximumMatching.size < g.nrows := by
      simpa using hmax.size_lt hinc
    have := choose_two_add_le hlt
    omega
  | true =>
    -- A pair for every row: nothing is marked any more.
    have hsize : g.zeroPattern.maximumMatching.size = g.nrows := by
      rw [g.zeroPattern.maximumMatching.isComplete_iff_size.mp hinc, hmax.nrows_eq,
        Grid.nrows_zeroPattern]
    rw [hmax.colSet_eq_empty hinc, hsize, Finset.card_empty]
    omega

section Exact

variable [Scalar.ExactNearZero K]

open Grid ZeroPattern

/-! ## What a chain keeps -/

theorem Grid.IsRound.lowest {g : Grid K} {r : Round K} (hr : g.IsRound r) :
    g.Lowest (g.zeroPattern.cover r.matching) r.value :=
  hr.lines ▸ lowest_of_minUncovered hr.value

/-- A round leaves a reduced matrix reduced. -/
theorem Grid.IsRound.isReduced {g : Grid K} {r : Round K} (hr : g.IsRound r)
    (hg : g.IsReduced) : r.matrix.IsReduced := by
  rw [hr.matrix, hr.lines]
  exact hg.adjustBy hr.isMaximum.toMatches hr.lowest

/-- **Rounds leave a reduced matrix reduced.** -/
theorem Rounds.isReduced {g h : Grid K} {rs : List (Round K)} (hrs : Rounds g rs h)
    (hg : g.IsReduced) : h.IsReduced := by
  induction hrs with
  | nil g => exact hg
  | cons hr _ ih => exact ih (hr.isReduced hg)

/-! ## The number of rounds -/

/-- **A round raises the rank.** -/
theorem Grid.IsRound.rank_lt {g : Grid K} {r : Round K} (hr : g.IsRound r)
    (hg : g.IsReduced) : g.rank < r.matrix.rank := by
  have hpos := card_colSet_pos hg hr.isMaximum.toFits hr.incomplete
  have hcols := hr.isMaximum.card_colSet_le
  have hprogress :=
    adjustBy_progress hr.isMaximum hr.lowest (ν := r.matrix.zeroPattern.maximumMatching)
  rw [← hr.lines, ← hr.matrix] at hprogress
  rw [← hr.lines] at hpos hcols
  unfold Grid.rank
  simp only
  rw [← hr.matching, ← hr.lines]
  rcases hprogress (maximumMatching_isMaximum _) with hlt | ⟨heq, hsub⟩
  · -- One pair more is worth more than all columns marked so far.
    have := choose_two_add_le hlt
    omega
  · -- As many pairs, and a column more.
    have := Finset.card_lt_card hsub
    rw [← heq]
    omega

/-- A chain of rounds is no longer than the rank can rise. -/
theorem Rounds.rank_add_length_le {g h : Grid K} {rs : List (Round K)} (hrs : Rounds g rs h)
    (hg : g.IsReduced) : g.rank + rs.length ≤ h.rank := by
  induction hrs with
  | nil g => simp
  | cons hr _ ih =>
    have hlt := hr.rank_lt hg
    have := ih (hr.isReduced hg)
    rw [List.length_cons]
    omega

/-- **A square matrix with `n` rows allows at most `n * (n - 1) / 2` rounds.** -/
theorem Rounds.length_le {g h : Grid K} {rs : List (Round K)} (hrs : Rounds g rs h)
    (hg : g.IsReduced) : rs.length ≤ g.nrows.choose 2 := by
  have hlen := hrs.rank_add_length_le hg
  have hle := h.rank_le
  rw [hrs.shape.1] at hle
  omega

/-! ## The end of a descent -/

/-- A reduced square matrix has a complete matching of zeros or allows a round. -/
theorem Grid.IsReduced.round_cases {g : Grid K} (hg : g.IsReduced) (hsq : g.nrows = g.ncols) :
    (∃ μ, g.round = .error (.complete μ)) ∨ ∃ r, g.round = .ok r := by
  have hmax := maximumMatching_isMaximum g.zeroPattern
  cases hinc : g.zeroPattern.maximumMatching.isComplete with
  | true => exact .inl ⟨_, Grid.round_eq_complete_iff.mpr ⟨rfl, hinc⟩⟩
  | false =>
    obtain ⟨d, hd⟩ := exists_minUncovered_cover hg.nonneg hsq hmax hinc
    let lines := g.zeroPattern.cover g.zeroPattern.maximumMatching
    refine .inr ⟨⟨g.zeroPattern.maximumMatching, lines, d, g.adjustBy lines d⟩, ?_⟩
    exact Grid.round_eq_ok_iff.mpr ⟨rfl, hinc, rfl, hmax.size_cover, hd, rfl⟩

theorem choose_two_lt_roundBudget (n : Nat) : n.choose 2 < roundBudget n := by
  rw [Nat.choose_two_right, roundBudget]
  have h : n * (n - 1) < (n + 1) * (n + 1) := Nat.mul_lt_mul'' (by omega) (by omega)
  omega

/-- **A descent from a reduced square matrix ends in a complete matching.** -/
theorem Grid.IsReduced.exists_complete {g : Grid K} (hg : g.IsReduced)
    (hsq : g.nrows = g.ncols) :
    ∃ μ, (g.descend (roundBudget g.nrows)).ending = .complete μ := by
  obtain ⟨h, hrounds, hround | ⟨_, hlen⟩⟩ := g.descend_spec (roundBudget g.nrows)
  · have hshape := hrounds.shape
    rcases (hrounds.isReduced hg).round_cases (by omega) with ⟨μ, hμ⟩ | ⟨r, hr⟩
    · rw [hμ] at hround
      exact ⟨μ, (Except.error.inj hround).symm⟩
    · rw [hr] at hround
      cases hround
  · -- The budget exceeds what the rank allows.
    have hle := hrounds.length_le hg
    have := choose_two_lt_roundBudget g.nrows
    omega

end Exact

end LinearAssignment
