import LinearAssignment.Proofs.Reachability

/-! # Growing a matching along alternating paths

    Flipping a path from an unpaired row to a free column keeps the two directions of the
    matching inverse to each other and pairs one row and one column more.  Rows that were
    found to lead to no free column never come to lead to one later, so trying every row
    once is enough.

    * `Augmenting`: a trail from an unpaired row to a free column; `Augmenting.fits` and
      `Augmenting.pairedRows_flip` say what flipping it does.
    * `Exhausted`: a row that leads to paired columns only.
    * `Grows`: what one matching keeps of another, whatever paths were flipped in between.
    * `augment_grows`, `augment_settled`: the whole pass over the rows. -/

namespace LinearAssignment

open AlternatingPath

/-! ## Flipping a path -/

namespace Matching

@[simp] theorem flip_nil (μ : Matching) : μ.flip [] = μ := rfl

@[simp] theorem flip_cons (μ : Matching) (i j : Nat) (path : AlternatingPath) :
    μ.flip ((i, j) :: path) = (μ.assign i j).flip path := rfl

@[simp] theorem nrows_flip (μ : Matching) (path : AlternatingPath) :
    (μ.flip path).nrows = μ.nrows := by
  induction path generalizing μ with
  | nil => rfl
  | cons e path ih => rw [flip_cons, ih, nrows_assign]

@[simp] theorem ncols_flip (μ : Matching) (path : AlternatingPath) :
    (μ.flip path).ncols = μ.ncols := by
  induction path generalizing μ with
  | nil => rfl
  | cons e path ih => rw [flip_cons, ih, ncols_assign]

theorem col?_flip_of_not_mem (μ : Matching) {path : AlternatingPath} {i : Nat}
    (h : i ∉ path.rows) : (μ.flip path).col? i = μ.col? i := by
  induction path generalizing μ with
  | nil => rfl
  | cons e path ih =>
    obtain ⟨row, col⟩ := e
    have hne : row ≠ i := fun heq => h (by simp [heq])
    have htail : i ∉ rows path := fun hmem => h (by simp [hmem])
    rw [flip_cons, ih _ htail, col?_assign, if_neg (fun hc => hne hc.1)]

theorem row?_flip_of_not_mem (μ : Matching) {path : AlternatingPath} {j : Nat}
    (h : j ∉ path.cols) : (μ.flip path).row? j = μ.row? j := by
  induction path generalizing μ with
  | nil => rfl
  | cons e path ih =>
    obtain ⟨row, col⟩ := e
    have hne : col ≠ j := fun heq => h (by simp [heq])
    have htail : j ∉ cols path := fun hmem => h (by simp [hmem])
    rw [flip_cons, ih _ htail, row?_assign, if_neg (fun hc => hne hc.1)]

theorem col?_flip_of_mem (μ : Matching) {path : AlternatingPath} {i j : Nat}
    (hnd : path.rows.Nodup) (hmem : (i, j) ∈ path) (hi : i < μ.nrows) :
    (μ.flip path).col? i = some j := by
  induction path generalizing μ with
  | nil => cases hmem
  | cons e path ih =>
    obtain ⟨row, col⟩ := e
    obtain ⟨hnot, hnd⟩ := List.nodup_cons.mp hnd
    rw [flip_cons]
    rcases List.mem_cons.mp hmem with heq | hmem
    · obtain ⟨rfl, rfl⟩ := Prod.mk.inj heq
      rw [col?_flip_of_not_mem _ hnot, col?_assign, if_pos ⟨rfl, hi⟩]
    · exact ih _ hnd hmem (by simpa using hi)

theorem row?_flip_of_mem (μ : Matching) {path : AlternatingPath} {i j : Nat}
    (hnd : path.cols.Nodup) (hmem : (i, j) ∈ path) (hj : j < μ.ncols) :
    (μ.flip path).row? j = some i := by
  induction path generalizing μ with
  | nil => cases hmem
  | cons e path ih =>
    obtain ⟨row, col⟩ := e
    obtain ⟨hnot, hnd⟩ := List.nodup_cons.mp hnd
    rw [flip_cons]
    rcases List.mem_cons.mp hmem with heq | hmem
    · obtain ⟨rfl, rfl⟩ := Prod.mk.inj heq
      rw [row?_flip_of_not_mem _ hnot, row?_assign, if_pos ⟨rfl, hj⟩]
    · exact ih _ hnd hmem (by simpa using hj)

end Matching

theorem AlternatingPath.mem_rows {path : AlternatingPath} {i : Nat} :
    i ∈ path.rows ↔ ∃ j, (i, j) ∈ path := by
  simp [rows]

theorem AlternatingPath.mem_cols {path : AlternatingPath} {j : Nat} :
    j ∈ path.cols ↔ ∃ i, (i, j) ∈ path := by
  simp [cols]

namespace ZeroPattern

variable {p : ZeroPattern} {μ ν : Matching} {roots : List Nat}

/-! ## The shape of a route -/

theorem Route.isZero {i : Nat} {path : AlternatingPath} (h : p.Route μ roots i path) :
    ∀ r c, (r, c) ∈ path → p.IsZero r c := by
  induction h with
  | root _ => simp
  | step _ hz _ _ ih =>
    intro r c hmem
    rcases List.mem_cons.mp hmem with heq | hmem
    · obtain ⟨rfl, rfl⟩ := Prod.mk.inj heq
      exact hz
    · exact ih r c hmem

theorem Route.cols_nodup {i : Nat} {path : AlternatingPath} (h : p.Route μ roots i path) :
    path.cols.Nodup := by
  induction h with
  | root _ => simp
  | step _ _ hnew _ ih => exact List.nodup_cons.mpr ⟨hnew, ih⟩

/-- The partner of a column visited is a row of the route. -/
theorem Route.partner_mem {i : Nat} {path : AlternatingPath} (h : p.Route μ roots i path) :
    ∀ c ∈ path.cols, ∃ r ∈ i :: path.rows, μ.row? c = some r := by
  induction h with
  | root _ => simp
  | @step i j i' path _ _ _ hrow ih =>
    intro c hc
    rcases List.mem_cons.mp hc with rfl | hc
    · exact ⟨i', by simp, hrow⟩
    · obtain ⟨r, hr, hcr⟩ := ih c hc
      exact ⟨r, List.mem_cons_of_mem _ hr, hcr⟩

theorem Route.root_mem {i : Nat} {path : AlternatingPath} (h : p.Route μ roots i path) :
    ∃ r ∈ roots, r ∈ i :: path.rows := by
  induction h with
  | root hi => exact ⟨_, hi, by simp⟩
  | step _ _ _ _ ih =>
    obtain ⟨r, hr, hmem⟩ := ih
    exact ⟨r, hr, List.mem_cons_of_mem _ hmem⟩

/-- A row of the route is a root or the partner of a column visited. -/
theorem Route.row_root_or_partner {i : Nat} {path : AlternatingPath}
    (h : p.Route μ roots i path) :
    ∀ r ∈ i :: path.rows, r ∈ roots ∨ ∃ c ∈ path.cols, μ.row? c = some r := by
  induction h with
  | root hi => simpa using hi
  | @step i j i' path _ _ _ hrow ih =>
    intro r hr
    rcases List.mem_cons.mp hr with rfl | hr
    · exact .inr ⟨j, by simp, hrow⟩
    · rcases ih r hr with hroot | ⟨c, hc, hcr⟩
      · exact .inl hroot
      · exact .inr ⟨c, List.mem_cons_of_mem _ hc, hcr⟩

/-- From unpaired roots, a row of the route has its column, if any, among those visited. -/
theorem Route.col_mem {i : Nat} {path : AlternatingPath} (h : p.Route μ roots i path)
    (hμ : μ.Consistent) (hroots : ∀ r ∈ roots, μ.col? r = none) :
    ∀ r ∈ i :: path.rows, ∀ c, μ.col? r = some c → c ∈ path.cols := by
  intro r hr c hc
  rcases h.row_root_or_partner r hr with hroot | ⟨c', hc', hrow⟩
  · rw [hroots r hroot] at hc
    cases hc
  · rw [(hμ r c').mpr hrow] at hc
    exact Option.some.inj hc ▸ hc'

/-- From unpaired roots, a route leaves no row twice. -/
theorem Route.rows_nodup {i : Nat} {path : AlternatingPath} (h : p.Route μ roots i path)
    (hμ : μ.Consistent) (hroots : ∀ r ∈ roots, μ.col? r = none) :
    (i :: path.rows).Nodup := by
  induction h with
  | root _ => simp
  | @step i j i' path hroute _ hnew hrow ih =>
    -- The column of the row now reached is new, so no earlier row can have it.
    refine List.nodup_cons.mpr ⟨fun hmem => hnew ?_, ih⟩
    exact hroute.col_mem hμ hroots i' hmem j ((hμ i' j).mpr hrow)

/-! ## Augmenting paths -/

/-- A trail from an unpaired row to a free column. -/
structure Augmenting (p : ZeroPattern) (μ : Matching) (start : Nat)
    (path : AlternatingPath) : Prop where
  unpaired : μ.col? start = none
  trail : p.Trail μ [start] path
  free : μ.next? path = none

section Flip

variable {start : Nat} {path : AlternatingPath}

theorem Augmenting.isZero (h : p.Augmenting μ start path) :
    ∀ r c, (r, c) ∈ path → p.IsZero r c := by
  obtain ⟨i, j, rest, rfl, hroute, hz, _⟩ := h.trail
  intro r c hmem
  rcases List.mem_cons.mp hmem with heq | hmem
  · obtain ⟨rfl, rfl⟩ := Prod.mk.inj heq
    exact hz
  · exact hroute.isZero r c hmem

theorem Augmenting.cols_nodup (h : p.Augmenting μ start path) : path.cols.Nodup := by
  obtain ⟨i, j, rest, rfl, hroute, _, hnew⟩ := h.trail
  exact List.nodup_cons.mpr ⟨hnew, hroute.cols_nodup⟩

theorem Augmenting.rows_nodup (h : p.Augmenting μ start path) (hμ : μ.Consistent) :
    path.rows.Nodup := by
  obtain ⟨i, j, rest, rfl, hroute, _, _⟩ := h.trail
  exact hroute.rows_nodup hμ (by simpa using h.unpaired)

theorem Augmenting.start_mem (h : p.Augmenting μ start path) : start ∈ path.rows := by
  obtain ⟨i, j, rest, rfl, hroute, _, _⟩ := h.trail
  obtain ⟨r, hr, hmem⟩ := hroute.root_mem
  obtain rfl : r = start := by simpa using hr
  exact hmem

/-- A row of the path other than its start is the partner of a column of the path. -/
theorem Augmenting.row_start_or_partner (h : p.Augmenting μ start path) :
    ∀ r ∈ path.rows, r = start ∨ ∃ c ∈ path.cols, μ.row? c = some r := by
  obtain ⟨i, j, rest, rfl, hroute, _, _⟩ := h.trail
  intro r hr
  rcases hroute.row_root_or_partner r hr with hroot | ⟨c, hc, hrow⟩
  · exact .inl (by simpa using hroot)
  · exact .inr ⟨c, List.mem_cons_of_mem _ hc, hrow⟩

/-- A column of the path is its free end or has its partner on the path. -/
theorem Augmenting.col_last_or_partner (h : p.Augmenting μ start path) :
    ∀ c ∈ path.cols, (path.lastCol? = some c ∧ μ.row? c = none) ∨
      ∃ r ∈ path.rows, μ.row? c = some r := by
  obtain ⟨i, j, rest, rfl, hroute, _, _⟩ := h.trail
  intro c hc
  rcases List.mem_cons.mp hc with rfl | hc
  · exact .inl ⟨rfl, by simpa using h.free⟩
  · exact .inr (hroute.partner_mem c hc)

theorem Augmenting.col?_flip (h : p.Augmenting μ start path) (hμ : p.Fits μ) {i j : Nat}
    (hmem : (i, j) ∈ path) : (μ.flip path).col? i = some j := by
  have hz := h.isZero i j hmem
  exact μ.col?_flip_of_mem (h.rows_nodup hμ.consistent) hmem (hμ.nrows_eq ▸ hz.lt_nrows)

theorem Augmenting.row?_flip (h : p.Augmenting μ start path) (hμ : p.Fits μ) {i j : Nat}
    (hmem : (i, j) ∈ path) : (μ.flip path).row? j = some i := by
  have hz := h.isZero i j hmem
  exact μ.row?_flip_of_mem h.cols_nodup hmem (hμ.ncols_eq ▸ hz.lt_ncols)

/-- Flipping an augmenting path keeps the two directions inverse to each other. -/
theorem Augmenting.fits (h : p.Augmenting μ start path) (hμ : p.Fits μ) :
    p.Fits (μ.flip path) where
  nrows_eq := by simp [hμ.nrows_eq]
  ncols_eq := by simp [hμ.ncols_eq]
  consistent := by
    intro a b
    -- On the path both directions hold the zeros of the path.  Off the path both are as they
    -- were, once the other line is known to be off the path as well.
    constructor
    · show (μ.flip path).col? a = some b → (μ.flip path).row? b = some a
      intro hab
      by_cases ha : a ∈ path.rows
      · obtain ⟨c, hc⟩ := mem_rows.mp ha
        rw [h.col?_flip hμ hc] at hab
        obtain rfl := Option.some.inj hab
        exact h.row?_flip hμ hc
      · rw [μ.col?_flip_of_not_mem ha] at hab
        have hrow := (hμ.consistent a b).mp hab
        -- The partner of a column on the path is on the path, and `a` is not.
        have hb : b ∉ path.cols := by
          intro hb
          rcases h.col_last_or_partner b hb with ⟨_, hfree⟩ | ⟨r, hr, hbr⟩
          · rw [hfree] at hrow
            cases hrow
          · rw [hbr] at hrow
            exact ha (Option.some.inj hrow ▸ hr)
        rw [μ.row?_flip_of_not_mem hb, hrow]
    · show (μ.flip path).row? b = some a → (μ.flip path).col? a = some b
      intro hba
      by_cases hb : b ∈ path.cols
      · obtain ⟨r, hr⟩ := mem_cols.mp hb
        rw [h.row?_flip hμ hr] at hba
        obtain rfl := Option.some.inj hba
        exact h.col?_flip hμ hr
      · rw [μ.row?_flip_of_not_mem hb] at hba
        have hcol := (hμ.consistent a b).mpr hba
        -- Likewise the start is unpaired and all other rows have their column on the path.
        have ha : a ∉ path.rows := by
          intro ha
          rcases h.row_start_or_partner a ha with rfl | ⟨c, hc, hrow⟩
          · rw [h.unpaired] at hcol
            cases hcol
          · rw [(hμ.consistent a c).mpr hrow] at hcol
            exact hb (Option.some.inj hcol ▸ hc)
        rw [μ.col?_flip_of_not_mem ha, hcol]

/-- Flipping an augmenting path pairs its start and leaves no row unpaired. -/
theorem Augmenting.pairedRows_flip (h : p.Augmenting μ start path) (hμ : p.Fits μ) :
    (μ.flip path).pairedRows = insert start μ.pairedRows := by
  ext i
  rw [Finset.mem_insert, Matching.mem_pairedRows, Matching.mem_pairedRows]
  -- All rows of the path are paired afterwards; all but its start were paired before.
  by_cases hi : i ∈ path.rows
  · obtain ⟨c, hc⟩ := mem_rows.mp hi
    refine iff_of_true ⟨c, h.col?_flip hμ hc⟩ ?_
    rcases h.row_start_or_partner i hi with heq | ⟨c', _, hrow⟩
    · exact .inl heq
    · exact .inr ⟨c', (hμ.consistent i c').mpr hrow⟩
  · rw [μ.col?_flip_of_not_mem hi]
    have hne : i ≠ start := fun heq => hi (heq ▸ h.start_mem)
    simp [hne]

/-- Flipping an augmenting path pairs its last column and frees no column. -/
theorem Augmenting.pairedCols_flip (h : p.Augmenting μ start path) (hμ : p.Fits μ) :
    ∃ j, path.lastCol? = some j ∧ μ.row? j = none ∧
      (μ.flip path).pairedCols = insert j μ.pairedCols := by
  obtain ⟨i, j, rest, rfl, hroute, _, _⟩ := h.trail
  refine ⟨j, rfl, by simpa using h.free, ?_⟩
  ext c
  rw [Finset.mem_insert, Matching.mem_pairedCols, Matching.mem_pairedCols]
  -- All columns of the path are paired afterwards; all but its end were paired before.
  by_cases hc : c ∈ cols ((i, j) :: rest)
  · obtain ⟨r, hr⟩ := mem_cols.mp hc
    refine iff_of_true ⟨r, h.row?_flip hμ hr⟩ ?_
    rcases List.mem_cons.mp hc with heq | hc
    · exact .inl heq
    · obtain ⟨r', _, hrow⟩ := hroute.partner_mem c hc
      exact .inr ⟨r', hrow⟩
  · rw [μ.row?_flip_of_not_mem hc]
    have hne : c ≠ j := fun heq => hc (by simp [heq])
    simp [hne]

/-- A pair of the flipped matching is an old pair or a zero. -/
theorem Augmenting.pair_flip (h : p.Augmenting μ start path) (hμ : p.Fits μ) {i j : Nat}
    (hij : (μ.flip path).col? i = some j) : μ.col? i = some j ∨ p.IsZero i j := by
  by_cases hi : i ∈ path.rows
  · obtain ⟨c, hc⟩ := mem_rows.mp hi
    rw [h.col?_flip hμ hc] at hij
    exact .inr (Option.some.inj hij ▸ h.isZero i c hc)
  · rw [μ.col?_flip_of_not_mem hi] at hij
    exact .inl hij

/-- Flipping an augmenting path keeps a matching of zeros one. -/
theorem Augmenting.matches_flip (h : p.Augmenting μ start path) (hμ : p.Matches μ) :
    p.Matches (μ.flip path) where
  toFits := h.fits hμ.toFits
  isZero := fun i j hij => (h.pair_flip hμ.toFits hij).elim (hμ.isZero i j) id

/-- A zero in an unpaired row and a free column is an augmenting path by itself. -/
theorem augmenting_singleton {i j : Nat} (hi : μ.col? i = none) (hj : μ.row? j = none)
    (hz : p.IsZero i j) : p.Augmenting μ i [(i, j)] where
  unpaired := hi
  trail := ⟨i, j, [], rfl, .root (by simp), hz, by simp⟩
  free := by simpa using hj

end Flip

/-! ## Rows that lead to no free column -/

/-- Every column that the row leads to is paired. -/
def Exhausted (p : ZeroPattern) (μ : Matching) (i : Nat) : Prop :=
  ∀ j, p.ReachedCol μ [i] j → ∃ r, μ.row? j = some r

/-- A route that visits a column reached from elsewhere stays among what is reached from
    there. -/
theorem Route.reached_of_col {i : Nat} {path : AlternatingPath} {roots' : List Nat}
    (h : p.Route μ roots i path) {c : Nat} (hc : c ∈ path.cols)
    (hreached : p.ReachedCol μ roots' c) : p.Reached μ roots' i := by
  -- The induction goes back along the route, from its end to the column in common.
  induction h with
  | root _ => simp at hc
  | step _ hz _ hrow ih =>
    rcases List.mem_cons.mp hc with rfl | hc
    · exact hreached.partner hrow
    · exact .step (ih hc) hz hrow

/-- An augmenting path avoids what an exhausted row leads to: once there it could not get
    back to a free column. -/
theorem Augmenting.not_reachedCol {start i : Nat} {path : AlternatingPath}
    (h : p.Augmenting μ start path) (hi : p.Exhausted μ i) :
    ∀ c ∈ path.cols, ¬ p.ReachedCol μ [i] c := by
  obtain ⟨row, j, rest, rfl, hroute, hz, _⟩ := h.trail
  -- The end is free, while an exhausted row leads to paired columns only.
  have hend : ¬ p.ReachedCol μ [i] j := by
    intro hj
    obtain ⟨r, hr⟩ := hi j hj
    have hfree : μ.row? j = none := by simpa using h.free
    rw [hfree] at hr
    cases hr
  intro c hc hreached
  rcases List.mem_cons.mp hc with rfl | hc
  · exact hend hreached
  · -- From a column in common the path leads on to its end.
    exact hend ⟨row, hroute.reached_of_col hc hreached, hz⟩

/-- Flipping an augmenting path leaves exhausted rows exhausted. -/
theorem Augmenting.exhausted_flip {start i : Nat} {path : AlternatingPath}
    (h : p.Augmenting μ start path) (hi : p.Exhausted μ i) : p.Exhausted (μ.flip path) i := by
  have havoid := h.not_reachedCol hi
  have hrow : ∀ c, p.ReachedCol μ [i] c → (μ.flip path).row? c = μ.row? c :=
    fun c hc => μ.row?_flip_of_not_mem fun hmem => havoid c hmem hc
  -- The flip changes no partner that a walk from the row could use, so nothing new is reached.
  have hreached : ∀ r, p.Reached (μ.flip path) [i] r → p.Reached μ [i] r := by
    intro r hr
    induction hr with
    | root hmem => exact .root hmem
    | @step a b c _ hz hnext ih =>
      have hb : p.ReachedCol μ [i] b := ⟨a, ih, hz⟩
      exact hb.partner (hrow b hb ▸ hnext)
  show ∀ j, p.ReachedCol (μ.flip path) [i] j → ∃ r, (μ.flip path).row? j = some r
  intro j ⟨r, hr, hz⟩
  have hj : p.ReachedCol μ [i] j := ⟨r, hreached r hr, hz⟩
  rw [hrow j hj]
  exact hi j hj

/-! ## One search -/

theorem augmenting_of_augmentingPath? {i : Nat} {path : AlternatingPath}
    (hi : μ.col? i = none) (h : p.augmentingPath? μ i = some path) :
    p.Augmenting μ i path where
  unpaired := hi
  trail := trail_of_mem_pathsFrom (List.mem_of_find?_eq_some h)
  free := by simpa using List.find?_some h

/-- The search finds no path exactly when the row is exhausted. -/
theorem augmentingPath?_eq_none_iff {i : Nat} :
    p.augmentingPath? μ i = none ↔ p.Exhausted μ i := by
  unfold augmentingPath?
  rw [List.find?_eq_none]
  constructor
  · intro h j hj
    obtain ⟨q, hq, hlast⟩ := exists_mem_pathsFrom_iff.mpr hj
    have := h q hq
    simpa [Matching.next?, hlast, Option.ne_none_iff_exists'] using this
  · intro h q hq
    obtain ⟨i', j, rest, rfl, hroute, hz, _⟩ := trail_of_mem_pathsFrom hq
    obtain ⟨r, hr⟩ := h j ⟨i', hroute.reached, hz⟩
    simp [hr]

/-- Trying a row leaves the matching alone, the row being paired or exhausted, or flips an
    augmenting path from it. -/
theorem augmentRow_cases (p : ZeroPattern) (μ : Matching) (i : Nat) :
    (p.augmentRow μ i = μ ∧ ((∃ j, μ.col? i = some j) ∨ p.Exhausted μ i)) ∨
      ∃ path, p.Augmenting μ i path ∧ p.augmentRow μ i = μ.flip path := by
  unfold augmentRow augmentFrom?
  cases hi : μ.col? i with
  | some j => exact .inl ⟨by simp, .inl ⟨j, rfl⟩⟩
  | none =>
    cases hpath : p.augmentingPath? μ i with
    | none => exact .inl ⟨by simp, .inr (augmentingPath?_eq_none_iff.mp hpath)⟩
    | some path => exact .inr ⟨path, augmenting_of_augmentingPath? hi hpath, by simp⟩

/-! ## The pass over all rows -/

/-- What the grown matching `ν` keeps of `μ`: paired lines stay paired, exhausted rows stay
    exhausted, and a new pair is a zero. -/
structure Grows (p : ZeroPattern) (μ ν : Matching) : Prop where
  rows : μ.pairedRows ⊆ ν.pairedRows
  cols : μ.pairedCols ⊆ ν.pairedCols
  pairs : ∀ i j, ν.col? i = some j → μ.col? i = some j ∨ p.IsZero i j
  exhausted : ∀ i, p.Exhausted μ i → p.Exhausted ν i

theorem Grows.refl (p : ZeroPattern) (μ : Matching) : p.Grows μ μ :=
  ⟨subset_rfl, subset_rfl, fun _ _ h => .inl h, fun _ h => h⟩

theorem Grows.trans {ξ : Matching} (h : p.Grows μ ν) (h' : p.Grows ν ξ) : p.Grows μ ξ where
  rows := h.rows.trans h'.rows
  cols := h.cols.trans h'.cols
  pairs := fun i j hij => (h'.pairs i j hij).elim (h.pairs i j) .inr
  exhausted := fun i hi => h'.exhausted i (h.exhausted i hi)

theorem Augmenting.grows {start : Nat} {path : AlternatingPath}
    (h : p.Augmenting μ start path) (hμ : p.Fits μ) : p.Grows μ (μ.flip path) where
  rows := by
    rw [h.pairedRows_flip hμ]
    exact Finset.subset_insert ..
  cols := by
    obtain ⟨j, _, _, heq⟩ := h.pairedCols_flip hμ
    rw [heq]
    exact Finset.subset_insert ..
  pairs := fun _ _ hij => h.pair_flip hμ hij
  exhausted := fun _ hi => h.exhausted_flip hi

theorem augmentRow_fits (hμ : p.Fits μ) (i : Nat) : p.Fits (p.augmentRow μ i) := by
  rcases p.augmentRow_cases μ i with ⟨heq, _⟩ | ⟨path, hpath, heq⟩
  · rw [heq]
    exact hμ
  · rw [heq]
    exact hpath.fits hμ

theorem augmentRow_grows (hμ : p.Fits μ) (i : Nat) : p.Grows μ (p.augmentRow μ i) := by
  rcases p.augmentRow_cases μ i with ⟨heq, _⟩ | ⟨path, hpath, heq⟩
  · rw [heq]
    exact .refl p μ
  · rw [heq]
    exact hpath.grows hμ

/-- Once tried, a row is paired or exhausted. -/
theorem augmentRow_settled (hμ : p.Fits μ) (i : Nat) :
    i ∈ (p.augmentRow μ i).pairedRows ∨ p.Exhausted (p.augmentRow μ i) i := by
  rcases p.augmentRow_cases μ i with ⟨heq, hpaired | hexh⟩ | ⟨path, hpath, heq⟩
  · rw [heq]
    exact .inl (Matching.mem_pairedRows.mpr hpaired)
  · rw [heq]
    exact .inr hexh
  · rw [heq, hpath.pairedRows_flip hμ]
    exact .inl (Finset.mem_insert_self ..)

/-- Trying rows one after the other grows the matching and settles each of them. -/
theorem foldl_augmentRow (rows : List Nat) (hμ : p.Fits μ) :
    p.Fits (rows.foldl p.augmentRow μ) ∧ p.Grows μ (rows.foldl p.augmentRow μ) ∧
      ∀ i ∈ rows, i ∈ (rows.foldl p.augmentRow μ).pairedRows ∨
        p.Exhausted (rows.foldl p.augmentRow μ) i := by
  induction rows generalizing μ with
  | nil => exact ⟨hμ, .refl p μ, by simp⟩
  | cons r rows ih =>
    -- What the first row settles stays settled, since the matching only grows afterwards.
    obtain ⟨hfits, hgrows, hsettled⟩ := ih (augmentRow_fits hμ r)
    refine ⟨hfits, (augmentRow_grows hμ r).trans hgrows, ?_⟩
    intro i hi
    rcases List.mem_cons.mp hi with rfl | hi
    · rcases augmentRow_settled hμ i with hpaired | hexh
      · exact .inl (hgrows.rows hpaired)
      · exact .inr (hgrows.exhausted i hexh)
    · exact hsettled i hi

theorem Fits.augment (hμ : p.Fits μ) : p.Fits (p.augment μ) :=
  (foldl_augmentRow (List.range p.nrows) hμ).1

theorem augment_grows (hμ : p.Fits μ) : p.Grows μ (p.augment μ) :=
  (foldl_augmentRow (List.range p.nrows) hμ).2.1

/-- **After the pass every row is paired or leads to no free column.** -/
theorem augment_settled (hμ : p.Fits μ) {i : Nat} (hi : i < p.nrows) :
    i ∈ (p.augment μ).pairedRows ∨ p.Exhausted (p.augment μ) i :=
  (foldl_augmentRow (List.range p.nrows) hμ).2.2 i (List.mem_range.mpr hi)

theorem Matches.augment (hμ : p.Matches μ) : p.Matches (p.augment μ) where
  toFits := hμ.toFits.augment
  isZero := fun i j hij => ((augment_grows hμ.toFits).pairs i j hij).elim (hμ.isZero i j) id

end ZeroPattern

end LinearAssignment
