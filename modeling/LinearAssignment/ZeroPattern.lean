import LinearAssignment.Grid
import LinearAssignment.Scalar.Basic

/-! # Zero patterns: where a grid is zero

    Matching rows with columns and covering lines look at a grid only through the places of
    its zeros.  A zero pattern keeps just these: for each row the columns that hold a zero,
    in ascending order.  It is a bipartite graph between rows and columns. -/

namespace LinearAssignment

/-- The places of the zeros of a grid. -/
structure ZeroPattern where
  /-- Number of columns of the grid. -/
  ncols : Nat
  /-- For each row the columns that hold a zero. -/
  zeros : List (List Nat)
  /-- Every listed column lies in the grid. -/
  bound : ∀ row ∈ zeros, ∀ j ∈ row, j < ncols

namespace ZeroPattern

/-- Number of rows of the grid. -/
def nrows (p : ZeroPattern) : Nat := p.zeros.length

/-- Number of zeros. -/
def size (p : ZeroPattern) : Nat := p.zeros.flatten.length

/-- The columns of row `i` that hold a zero; none for a row outside the grid. -/
def zerosOf (p : ZeroPattern) (i : Nat) : List Nat := p.zeros[i]?.getD []

/-- The cell at row `i` and column `j` is a zero. -/
def IsZero (p : ZeroPattern) (i j : Nat) : Prop := j ∈ p.zerosOf i

instance (p : ZeroPattern) (i j : Nat) : Decidable (p.IsZero i j) :=
  inferInstanceAs (Decidable (j ∈ p.zerosOf i))

theorem mem_zerosOf {p : ZeroPattern} {i j : Nat} : j ∈ p.zerosOf i ↔ p.IsZero i j := Iff.rfl

theorem IsZero.lt_ncols {p : ZeroPattern} {i j : Nat} (h : p.IsZero i j) : j < p.ncols := by
  unfold IsZero zerosOf at h
  cases hi : p.zeros[i]? with
  | none => simp [hi] at h
  | some row => exact p.bound row (List.mem_of_getElem? hi) j (by simpa [hi] using h)

theorem IsZero.lt_nrows {p : ZeroPattern} {i j : Nat} (h : p.IsZero i j) : i < p.nrows := by
  unfold IsZero zerosOf at h
  cases hi : p.zeros[i]? with
  | none => simp [hi] at h
  | some row => exact (List.getElem?_eq_some_iff.mp hi).1

end ZeroPattern

namespace Grid

variable {K : Type} [Scalar K]

/-- The places in a row that hold a zero, counted from `start`. -/
def zeroPlaces (start : Nat) : List K → List Nat
  | [] => []
  | v :: vs =>
    if Scalar.isZero v then start :: zeroPlaces (start + 1) vs else zeroPlaces (start + 1) vs

theorem mem_zeroPlaces {start j : Nat} {row : List K} :
    j ∈ zeroPlaces start row ↔
      start ≤ j ∧ ∃ v, row[j - start]? = some v ∧ Scalar.isZero v = true := by
  induction row generalizing start with
  | nil => simp [zeroPlaces]
  | cons v vs ih =>
    have tail : j ∈ zeroPlaces (start + 1) vs ↔
        start + 1 ≤ j ∧ ∃ v, vs[j - (start + 1)]? = some v ∧ Scalar.isZero v = true := ih
    rcases Nat.lt_trichotomy j start with hlt | heq | hgt
    · have h1 : ¬ start ≤ j := by omega
      have h2 : ¬ start + 1 ≤ j := by omega
      have h3 : j ≠ start := by omega
      unfold zeroPlaces
      split <;> simp [tail, h1, h2, h3]
    · subst heq
      unfold zeroPlaces
      split
      · next h => simp [h]
      · next h =>
        have : ¬ j + 1 ≤ j := by omega
        simp [tail, h, this]
    · have h1 : start ≤ j := by omega
      have h2 : start + 1 ≤ j := by omega
      have h3 : j ≠ start := by omega
      have h4 : j - start = (j - (start + 1)) + 1 := by omega
      unfold zeroPlaces
      split <;> simp [tail, h1, h2, h3, h4]

/-- The places of the zeros of the grid. -/
def zeroPattern (g : Grid K) : ZeroPattern where
  ncols := g.ncols
  zeros := g.rows.map (zeroPlaces 0)
  bound := by
    intro places h j hj
    obtain ⟨row, hrow, rfl⟩ := List.mem_map.mp h
    obtain ⟨_, v, hv, _⟩ := mem_zeroPlaces.mp hj
    have := (List.getElem?_eq_some_iff.mp hv).1
    rw [g.rect row hrow] at this
    simpa using this

@[simp] theorem ncols_zeroPattern (g : Grid K) : g.zeroPattern.ncols = g.ncols := rfl

@[simp] theorem nrows_zeroPattern (g : Grid K) : g.zeroPattern.nrows = g.nrows := by
  simp [zeroPattern, ZeroPattern.nrows, nrows]

/-- The pattern says of a position just what the zero test says of its value. -/
theorem isZero_zeroPattern_iff (g : Grid K) (i j : Nat) :
    g.zeroPattern.IsZero i j ↔ ∃ v, g.cell? i j = some v ∧ Scalar.isZero v = true := by
  simp only [ZeroPattern.IsZero, ZeroPattern.zerosOf, zeroPattern, cell?, List.getElem?_map]
  cases g.rows[i]? with
  | none => simp
  | some row => simp [mem_zeroPlaces]

end Grid

end LinearAssignment
