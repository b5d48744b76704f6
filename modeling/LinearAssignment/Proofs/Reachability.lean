import LinearAssignment.Matching.Alternating
import LinearAssignment.Proofs.Pairing

/-! # What alternating paths lead to

    Leaving a row along a zero and returning from a column along its pair defines which rows
    and columns are reached from given rows.  The breadth-first walk finds exactly these
    columns, each along a path that can be flipped.

    * `Reached`, `ReachedCol`: the rows and the columns that are reached.
    * `Route`: a row is reached along this path, which visits no column twice.
    * `Trail`: a path as the walk lists it, a route continued by one zero.
    * `exists_mem_pathsFrom_iff`: the walk lists a path to every column that is reached, and
      to no other. -/

namespace LinearAssignment

namespace AlternatingPath

/-- The rows that the path leaves. -/
def rows (path : AlternatingPath) : List Nat := path.map (·.1)

/-- The columns that the path visits. -/
def cols (path : AlternatingPath) : List Nat := path.map (·.2)

@[simp] theorem rows_nil : rows [] = [] := rfl

@[simp] theorem cols_nil : cols [] = [] := rfl

@[simp] theorem rows_cons (i j : Nat) (path : AlternatingPath) :
    rows ((i, j) :: path) = i :: path.rows := rfl

@[simp] theorem cols_cons (i j : Nat) (path : AlternatingPath) :
    cols ((i, j) :: path) = j :: path.cols := rfl

@[simp] theorem lastCol?_cons (i j : Nat) (path : AlternatingPath) :
    lastCol? ((i, j) :: path) = some j := rfl

end AlternatingPath

open AlternatingPath

namespace Matching

@[simp] theorem next?_cons (μ : Matching) (i j : Nat) (path : AlternatingPath) :
    μ.next? ((i, j) :: path) = μ.row? j := rfl

theorem mem_continuations {μ : Matching} {paths : List AlternatingPath} {i : Nat}
    {path : AlternatingPath} :
    (i, path) ∈ μ.continuations paths ↔ path ∈ paths ∧ μ.next? path = some i := by
  simp only [continuations, List.mem_filterMap, Option.map_eq_some_iff, Prod.mk.injEq]
  constructor
  · intro h
    obtain ⟨q, hq, a, ha, rfl, rfl⟩ := h
    exact ⟨hq, ha⟩
  · intro h
    obtain ⟨hpath, hi⟩ := h
    exact ⟨path, hpath, i, hi, rfl, rfl⟩

end Matching

namespace ZeroPattern

variable {p : ZeroPattern} {μ : Matching} {roots : List Nat}

/-! ## Rows and columns reached -/

/-- Rows that alternating paths from the given rows lead to. -/
inductive Reached (p : ZeroPattern) (μ : Matching) (roots : List Nat) : Nat → Prop where
  | root {i : Nat} : i ∈ roots → Reached p μ roots i
  | step {i j i' : Nat} : Reached p μ roots i → p.IsZero i j → μ.row? j = some i' →
      Reached p μ roots i'

/-- Columns that hold a zero of a row reached. -/
def ReachedCol (p : ZeroPattern) (μ : Matching) (roots : List Nat) (j : Nat) : Prop :=
  ∃ i, p.Reached μ roots i ∧ p.IsZero i j

/-- What is reached from several rows is reached from one of them. -/
theorem Reached.exists_root {i : Nat} (h : p.Reached μ roots i) :
    ∃ r ∈ roots, p.Reached μ [r] i := by
  induction h with
  | @root i hi => exact ⟨i, hi, .root (by simp)⟩
  | step _ hz hrow ih =>
    obtain ⟨r, hr, hreached⟩ := ih
    exact ⟨r, hr, .step hreached hz hrow⟩

theorem ReachedCol.exists_root {j : Nat} (h : p.ReachedCol μ roots j) :
    ∃ r ∈ roots, p.ReachedCol μ [r] j := by
  obtain ⟨i, hi, hz⟩ := h
  obtain ⟨r, hr, hreached⟩ := hi.exists_root
  exact ⟨r, hr, i, hreached, hz⟩

/-- A row reached is a root, or the partner of a column reached. -/
theorem Reached.cases_partner {i : Nat} (h : p.Reached μ roots i) :
    i ∈ roots ∨ ∃ j, p.ReachedCol μ roots j ∧ μ.row? j = some i := by
  cases h with
  | root hi => exact .inl hi
  | step hi hz hrow => exact .inr ⟨_, ⟨_, hi, hz⟩, hrow⟩

theorem ReachedCol.partner {i j : Nat} (h : p.ReachedCol μ roots j)
    (hrow : μ.row? j = some i) : p.Reached μ roots i := by
  obtain ⟨i', hi', hz⟩ := h
  exact .step hi' hz hrow

/-! ## Routes and trails -/

/-- The row is reached along the path, and the path visits no column twice. -/
inductive Route (p : ZeroPattern) (μ : Matching) (roots : List Nat) :
    Nat → AlternatingPath → Prop where
  | root {i : Nat} : i ∈ roots → Route p μ roots i []
  | step {i j i' : Nat} {path : AlternatingPath} : Route p μ roots i path →
      p.IsZero i j → j ∉ path.cols → μ.row? j = some i' → Route p μ roots i' ((i, j) :: path)

/-- A route continued by a zero in a column that is new to it. -/
def Trail (p : ZeroPattern) (μ : Matching) (roots : List Nat) (path : AlternatingPath) : Prop :=
  ∃ (i j : Nat) (rest : AlternatingPath),
    path = (i, j) :: rest ∧ p.Route μ roots i rest ∧ p.IsZero i j ∧ j ∉ rest.cols

theorem Route.reached {i : Nat} {path : AlternatingPath} (h : p.Route μ roots i path) :
    p.Reached μ roots i := by
  induction h with
  | root hi => exact .root hi
  | step _ hz _ hrow ih => exact .step ih hz hrow

theorem Trail.reachedCol {path : AlternatingPath} {j : Nat} (h : p.Trail μ roots path)
    (hj : path.lastCol? = some j) : p.ReachedCol μ roots j := by
  obtain ⟨i, j', rest, rfl, hroute, hz, _⟩ := h
  obtain rfl : j' = j := by simpa using hj
  exact ⟨i, hroute.reached, hz⟩

/-! ## Soundness of the walk -/

/-- What the walk relies on: every queued row is reached along the path queued with it, and
    the columns of that path have been seen. -/
structure Frontier (p : ZeroPattern) (μ : Matching) (roots unseen : List Nat)
    (queue : List (Nat × AlternatingPath)) : Prop where
  route : ∀ i path, (i, path) ∈ queue → p.Route μ roots i path
  seen : ∀ i path, (i, path) ∈ queue → ∀ j ∈ path.cols, j ∉ unseen

theorem mem_found {unseen : List Nat} {i : Nat} {path q : AlternatingPath} :
    q ∈ p.found unseen i path ↔ ∃ j ∈ unseen, p.IsZero i j ∧ q = (i, j) :: path := by
  simp only [found, List.mem_map, List.mem_filter, List.contains_iff_mem, mem_zerosOf]
  constructor
  · intro h
    obtain ⟨j, ⟨hj, hz⟩, rfl⟩ := h
    exact ⟨j, hj, hz, rfl⟩
  · intro h
    obtain ⟨j, hj, hz, rfl⟩ := h
    exact ⟨j, ⟨hj, hz⟩, rfl⟩

theorem mem_remaining {unseen : List Nat} {i j : Nat} :
    j ∈ p.remaining unseen i ↔ j ∈ unseen ∧ ¬ p.IsZero i j := by
  simp [remaining, mem_zerosOf]

theorem Frontier.trail_found {unseen : List Nat} {i : Nat} {path : AlternatingPath}
    {queue : List (Nat × AlternatingPath)}
    (h : p.Frontier μ roots unseen ((i, path) :: queue)) :
    ∀ q ∈ p.found unseen i path, p.Trail μ roots q := by
  intro q hq
  obtain ⟨j, hj, hz, rfl⟩ := mem_found.mp hq
  have hnew : j ∉ path.cols := fun hmem => h.seen i path (by simp) j hmem hj
  exact ⟨i, j, path, rfl, h.route i path (by simp), hz, hnew⟩

/-- One step of the walk keeps the frontier. -/
theorem Frontier.step {unseen : List Nat} {i : Nat} {path : AlternatingPath}
    {queue : List (Nat × AlternatingPath)}
    (h : p.Frontier μ roots unseen ((i, path) :: queue)) :
    p.Frontier μ roots (p.remaining unseen i)
      (queue ++ μ.continuations (p.found unseen i path)) := by
  constructor
  · -- What is queued now goes on from a path found at this step, by the pair of its column.
    intro i' q hq
    rcases List.mem_append.mp hq with hold | hnew
    · exact h.route i' q (List.mem_cons_of_mem _ hold)
    · obtain ⟨hfound, hnext⟩ := Matching.mem_continuations.mp hnew
      obtain ⟨_, _, _, rfl, hroute, hz, hfresh⟩ := h.trail_found q hfound
      exact .step hroute hz hfresh hnext
  · -- Fewer columns are unseen than before, and the new one among them is gone.
    intro i' q hq j hj hrem
    obtain ⟨hunseen, hnz⟩ := mem_remaining.mp hrem
    rcases List.mem_append.mp hq with hold | hnew
    · exact h.seen i' q (List.mem_cons_of_mem _ hold) j hj hunseen
    · obtain ⟨hfound, _⟩ := Matching.mem_continuations.mp hnew
      obtain ⟨j', _, hz, rfl⟩ := mem_found.mp hfound
      rcases List.mem_cons.mp hj with rfl | hj
      · exact hnz hz
      · exact h.seen i path (by simp) j hj hunseen

/-- Every path that the walk lists is a trail. -/
theorem trail_of_mem_explore {unseen : List Nat} {queue : List (Nat × AlternatingPath)}
    (h : p.Frontier μ roots unseen queue) :
    ∀ q ∈ p.explore μ unseen queue, p.Trail μ roots q := by
  -- The induction follows the walk; the frontier is its invariant.
  fun_induction p.explore μ unseen queue with
  | case1 => simp
  | case2 unseen i path queue paths ih =>
    intro q hq
    rcases List.mem_append.mp hq with hfound | hrest
    · exact h.trail_found q hfound
    · exact ih h.step q hrest

/-! ## Completeness of the walk -/

/-- The walk leaves from this row: it is queued, or a path listed goes on to it. -/
def LeavesFrom (p : ZeroPattern) (μ : Matching) (unseen : List Nat)
    (queue : List (Nat × AlternatingPath)) (i : Nat) : Prop :=
  (∃ path, (i, path) ∈ queue) ∨ ∃ q ∈ p.explore μ unseen queue, μ.next? q = some i

/-- The walk lists a path to every unseen column that holds a zero of a row it leaves from. -/
theorem exists_mem_explore {unseen : List Nat} {queue : List (Nat × AlternatingPath)}
    {i j : Nat} (hi : p.LeavesFrom μ unseen queue i) (hj : j ∈ unseen) (hz : p.IsZero i j) :
    ∃ q ∈ p.explore μ unseen queue, q.lastCol? = some j := by
  unfold LeavesFrom at hi
  fun_induction p.explore μ unseen queue with
  | case1 => simp at hi
  | case2 unseen row path queue paths ih =>
    -- A column seen from the row just left is listed here; any other stays unseen.
    by_cases hrow : p.IsZero row j
    · have hfound : (row, j) :: path ∈ paths := mem_found.mpr ⟨j, hj, hrow, rfl⟩
      exact ⟨_, List.mem_append_left _ hfound, rfl⟩
    · have hrem : j ∈ p.remaining unseen row := mem_remaining.mpr ⟨hj, hrow⟩
      -- The row is not the one just left, so it is queued behind it or queued by it.
      have hlater : (∃ path, (i, path) ∈ queue ++ μ.continuations paths) ∨
          ∃ q ∈ p.explore μ (p.remaining unseen row) (queue ++ μ.continuations paths),
            μ.next? q = some i := by
        rcases hi with ⟨path', hmem⟩ | ⟨q, hq, hnext⟩
        · rcases List.mem_cons.mp hmem with heq | hmem
          · obtain ⟨rfl, -⟩ := Prod.mk.inj heq
            exact absurd hz hrow
          · exact .inl ⟨path', List.mem_append_left _ hmem⟩
        · rcases List.mem_append.mp hq with hfound | hrest
          · exact .inl ⟨q, List.mem_append_right _
              (Matching.mem_continuations.mpr ⟨hfound, hnext⟩)⟩
          · exact .inr ⟨q, hrest, hnext⟩
      obtain ⟨q, hq, hlast⟩ := ih hlater hrem
      exact ⟨q, List.mem_append_right _ hq, hlast⟩

theorem trail_of_mem_pathsFrom {q : AlternatingPath} (hq : q ∈ p.pathsFrom μ roots) :
    p.Trail μ roots q := by
  apply trail_of_mem_explore _ q hq
  -- At the start the roots are queued, each with the empty path.
  constructor
  · intro i path hmem
    obtain ⟨r, hr, heq⟩ := List.mem_map.mp hmem
    obtain ⟨rfl, rfl⟩ := Prod.mk.inj heq
    exact .root hr
  · intro i path hmem j hj
    obtain ⟨r, hr, heq⟩ := List.mem_map.mp hmem
    obtain ⟨rfl, rfl⟩ := Prod.mk.inj heq
    simp at hj

/-- A row reached is a root, or a path listed goes on to it. -/
theorem Reached.root_or_next {i : Nat} (h : p.Reached μ roots i) :
    i ∈ roots ∨ ∃ q ∈ p.pathsFrom μ roots, μ.next? q = some i := by
  induction h with
  | root hi => exact .inl hi
  | @step i j i' _ hz hrow ih =>
    have hleaves : p.LeavesFrom μ (List.range p.ncols) (roots.map (·, [])) i := by
      rcases ih with hroot | hnext
      · exact .inl ⟨[], List.mem_map.mpr ⟨i, hroot, rfl⟩⟩
      · exact .inr hnext
    obtain ⟨q, hq, hlast⟩ := exists_mem_explore hleaves (List.mem_range.mpr hz.lt_ncols) hz
    exact .inr ⟨q, hq, by simp [Matching.next?, hlast, hrow]⟩

/-- **The walk lists a path to exactly the columns that are reached.** -/
theorem exists_mem_pathsFrom_iff {j : Nat} :
    (∃ q ∈ p.pathsFrom μ roots, q.lastCol? = some j) ↔ p.ReachedCol μ roots j := by
  constructor
  · intro h
    obtain ⟨q, hq, hlast⟩ := h
    exact (trail_of_mem_pathsFrom hq).reachedCol hlast
  · intro h
    obtain ⟨i, hi, hz⟩ := h
    have hleaves : p.LeavesFrom μ (List.range p.ncols) (roots.map (·, [])) i := by
      rcases hi.root_or_next with hroot | hnext
      · exact .inl ⟨[], List.mem_map.mpr ⟨i, hroot, rfl⟩⟩
      · exact .inr hnext
    exact exists_mem_explore hleaves (List.mem_range.mpr hz.lt_ncols) hz

/-- The rows reached are the roots and the rows that the paths listed go on to. -/
theorem reached_iff {i : Nat} :
    p.Reached μ roots i ↔ i ∈ roots ∨ ∃ q ∈ p.pathsFrom μ roots, μ.next? q = some i := by
  constructor
  · exact Reached.root_or_next
  · intro h
    rcases h with hroot | ⟨q, hq, hnext⟩
    · exact .root hroot
    · obtain ⟨i', j, rest, rfl, hroute, hz, _⟩ := trail_of_mem_pathsFrom hq
      exact .step hroute.reached hz hnext

end ZeroPattern

end LinearAssignment
