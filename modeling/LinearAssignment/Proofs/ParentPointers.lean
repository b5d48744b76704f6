import LinearAssignment.Proofs.Augmentation
import LinearAssignment.Proofs.Loops

/-! # Searching and flipping in place

    The walk over alternating paths carries every path along.  In place less is kept: for each
    column the row that it was reached from.  The search stops at the first free column, and the
    path is then read backwards, from a column to the row it was reached from and on to the
    column of that row, each pair being looked up just before it is overwritten.

    Neither loop is bounded beforehand.  The search ends because every column is reached once.
    That the way back ends is owed to the matching: its two directions are inverse to each
    other, so what is read is the path of the walk, whose rows differ, and no entry is read after
    it was overwritten.

    * `Search`, `ZeroPattern.scan`, `ZeroPattern.leave`, `ZeroPattern.seek`: the search with its
      pointers.
    * `Search.turnBack`, `Search.retrace`: the way back.
    * `ZeroPattern.augmentInPlace`, `ZeroPattern.growInPlace`: one row, and all rows.
    * `Follows`: how a search stands when the walk stands at a given queue.
    * `augmentInPlace_eq`, `growInPlace_eq`: both end, in what the walk leads to. -/

namespace LinearAssignment

open AlternatingPath

/-! ## The search and the way back -/

/-- A search while it goes on. -/
structure Search where
  /-- For each column the row that it was reached from. -/
  parents : List (Option Nat)
  /-- The rows to leave from, the next one first. -/
  queue : List Nat

namespace Search

/-- The search from row `i` in a table with `n` columns, before its first step. -/
def start (n i : Nat) : Search := ⟨List.replicate n none, [i]⟩

/-- The row that column `j` was reached from, `none` for a column not reached. -/
def parent? (s : Search) (j : Nat) : Option Nat := s.parents[j]?.getD none

/-- Column `j` is reached from row `i`. -/
def reach (s : Search) (i j : Nat) : Search := { s with parents := s.parents.set j (some i) }

/-- Row `i` is put last in the queue. -/
def push (s : Search) (i : Nat) : Search := { s with queue := s.queue ++ [i] }

/-- One turn of the way back, at column `j`: it is paired with the row that it was reached
    from, and the column that this row had until then is next.  The way ends at a row that had
    none. -/
def turnBack (s : Search) : Matching × Nat → Matching ⊕ (Matching × Nat)
  | (μ, j) =>
    match s.parent? j with
    | none => .inl μ
    | some i =>
      match μ.col? i with
      | none => .inl (μ.assign i j)
      | some j' => .inr (μ.assign i j, j')

/-- The way back from column `j`. -/
def retrace (s : Search) (μ : Matching) (j : Nat) : Part Matching := loop s.turnBack (μ, j)

end Search

namespace ZeroPattern

/-- Leave row `i` along the given columns, from left to right.  Those that are new and hold a
    zero of the row are reached and their partners queued, up to the first free column, which is
    handed back. -/
def scan (p : ZeroPattern) (μ : Matching) (i : Nat) : List Nat → Search → Search × Option Nat
  | [], s => (s, none)
  | j :: js, s =>
    if s.parent? j = none ∧ p.IsZero i j then
      match μ.row? j with
      | none => (s.reach i j, some j)
      | some i' => p.scan μ i js ((s.reach i j).push i')
    else p.scan μ i js s

/-- One turn of the search: the next row of the queue is left along all columns.  The search
    stops at a free column, or when no row is queued. -/
def leave (p : ZeroPattern) (μ : Matching) (s : Search) : (Search × Option Nat) ⊕ Search :=
  match s.queue with
  | [] => .inl (s, none)
  | i :: queue =>
    match p.scan μ i (List.range p.ncols) { s with queue := queue } with
    | (s', some j) => .inl (s', some j)
    | (s', none) => .inr s'

/-- The search from here on, with the free column that it stops at. -/
def seek (p : ZeroPattern) (μ : Matching) : Search → Part (Search × Option Nat) :=
  loop (p.leave μ)

/-- Search a path from row `i` to a free column and flip it; whether there was one, and the
    matching afterwards. -/
def augmentInPlace (p : ZeroPattern) (μ : Matching) (i : Nat) : Part (Bool × Matching) :=
  (p.seek μ (.start p.ncols i)).bind fun
    | (_, none) => .some (false, μ)
    | (s, some j) => (s.retrace μ j).map (true, ·)

/-- Row `i` is tried if it is unpaired. -/
def tryInPlace (p : ZeroPattern) (μ : Matching) (i : Nat) : Part Matching :=
  if (μ.col? i).isSome then .some μ else (p.augmentInPlace μ i).map (·.2)

/-- The rows are tried from top to bottom. -/
def growInPlace (p : ZeroPattern) (μ : Matching) : Part Matching :=
  (List.range p.nrows).foldlM p.tryInPlace μ

end ZeroPattern

/-! ## Pointers -/

namespace Search

@[simp] theorem queue_reach (s : Search) (i j : Nat) : (s.reach i j).queue = s.queue := rfl

@[simp] theorem queue_push (s : Search) (i : Nat) : (s.push i).queue = s.queue ++ [i] := rfl

@[simp] theorem length_reach (s : Search) (i j : Nat) :
    (s.reach i j).parents.length = s.parents.length := by
  simp [reach]

@[simp] theorem length_push (s : Search) (i : Nat) :
    (s.push i).parents.length = s.parents.length := rfl

@[simp] theorem parent?_start (n i j : Nat) : (start n i).parent? j = none := by
  by_cases h : j < n <;> simp [start, parent?, h]

theorem parent?_reach (s : Search) {i j : Nat} (hj : j < s.parents.length) (c : Nat) :
    (s.reach i j).parent? c = if c = j then some i else s.parent? c := by
  unfold reach parent?
  rw [List.getElem?_set]
  by_cases h : c = j
  · subst h
    simp [hj]
  · simp [h, Ne.symm h]

/-- Reaching a column without a pointer keeps the pointers that were set. -/
theorem parent?_reach_of_some {s : Search} {i j c a : Nat} (hj : j < s.parents.length)
    (hnew : s.parent? j = none) (hc : s.parent? c = some a) : (s.reach i j).parent? c = some a := by
  have hne : c ≠ j := by
    rintro rfl
    rw [hnew] at hc
    cases hc
  rw [s.parent?_reach hj, if_neg hne, hc]

/-- The pointers lead back along the path. -/
def Shows (s : Search) (path : AlternatingPath) : Prop :=
  ∀ i j, (i, j) ∈ path → s.parent? j = some i

end Search

namespace ZeroPattern

variable {p : ZeroPattern} {μ : Matching}

/-! ## Leaving one row -/

/-- The given columns that are new and hold a zero of row `i`. -/
def fresh (p : ZeroPattern) (s : Search) (i : Nat) (cols : List Nat) : List Nat :=
  cols.filter fun j => s.parent? j = none ∧ p.IsZero i j

/-- What leaving row `i` along the given columns makes of a search `s`. -/
structure Scans (p : ZeroPattern) (μ : Matching) (i : Nat) (cols : List Nat) (s : Search)
    (r : Search × Option Nat) : Prop where
  length_eq : r.1.parents.length = s.parents.length
  /-- The first free column among the fresh ones is handed back. -/
  found_eq : r.2 = (p.fresh s i cols).find? fun j => (μ.row? j).isNone
  /-- Pointers that were set stay. -/
  keeps : ∀ c a, s.parent? c = some a → r.1.parent? c = some a
  /-- The free column points to the row. -/
  free : ∀ j, r.2 = some j → r.1.parent? j = some i
  /-- Without a free column all fresh ones point to the row. -/
  parent?_eq : r.2 = none → ∀ c, r.1.parent? c =
    if c ∈ p.fresh s i cols then some i else s.parent? c
  /-- Their partners are queued. -/
  queue_eq : r.2 = none → r.1.queue = s.queue ++ (p.fresh s i cols).filterMap μ.row?

/-- A free column that is reached ends the scan. -/
theorem scans_free {i j : Nat} {js : List Nat} {s : Search} (hj : j < s.parents.length)
    (hopen : s.parent? j = none ∧ p.IsZero i j) (hrow : μ.row? j = none) :
    p.Scans μ i (j :: js) s (s.reach i j, some j) where
  length_eq := by simp
  found_eq := by
    have hfresh : p.fresh s i (j :: js) = j :: p.fresh s i js :=
      List.filter_cons_of_pos (by simpa using hopen)
    simp [hfresh, hrow]
  keeps c a hc := Search.parent?_reach_of_some hj hopen.1 hc
  free c hc := by
    obtain rfl := Option.some.inj hc
    rw [s.parent?_reach hj, if_pos rfl]
  parent?_eq h := by cases h
  queue_eq h := by cases h

/-- A paired column that is reached has its row queued, and the scan goes on. -/
theorem Scans.cons_paired {i j i' : Nat} {js : List Nat} {s : Search} {r : Search × Option Nat}
    (hnot : j ∉ js) (hj : j < s.parents.length) (hopen : s.parent? j = none ∧ p.IsZero i j)
    (hrow : μ.row? j = some i') (h : p.Scans μ i js ((s.reach i j).push i') r) :
    p.Scans μ i (j :: js) s r := by
  have hparent : ∀ c, ((s.reach i j).push i').parent? c =
      if c = j then some i else s.parent? c := s.parent?_reach hj
  have hfresh : p.fresh s i (j :: js) = j :: p.fresh s i js :=
    List.filter_cons_of_pos (by simpa using hopen)
  -- The pointer just set is that of a column that does not come again.
  have hrest : p.fresh ((s.reach i j).push i') i js = p.fresh s i js := by
    refine List.filter_congr fun c hc => ?_
    rw [hparent, if_neg fun heq : c = j => hnot (heq ▸ hc)]
  constructor
  · rw [h.length_eq]
    simp
  · rw [h.found_eq, hrest, hfresh, List.find?_cons_of_neg (by simp [hrow])]
  · intro c a hc
    exact h.keeps c a (Search.parent?_reach_of_some hj hopen.1 hc)
  · exact h.free
  · intro hnone c
    rw [h.parent?_eq hnone, hrest, hfresh, hparent]
    by_cases hcj : c = j
    · simp [hcj]
    · simp [hcj]
  · intro hnone
    rw [h.queue_eq hnone, hrest, hfresh, List.filterMap_cons_some hrow]
    simp

/-- A column that is not fresh is passed over. -/
theorem Scans.cons_skipped {i j : Nat} {js : List Nat} {s : Search} {r : Search × Option Nat}
    (hopen : ¬ (s.parent? j = none ∧ p.IsZero i j)) (h : p.Scans μ i js s r) :
    p.Scans μ i (j :: js) s r := by
  have hfresh : p.fresh s i (j :: js) = p.fresh s i js :=
    List.filter_cons_of_neg (by simpa using hopen)
  exact ⟨h.length_eq, hfresh ▸ h.found_eq, h.keeps, h.free, hfresh ▸ h.parent?_eq,
    hfresh ▸ h.queue_eq⟩

theorem scans_scan (μ : Matching) (i : Nat) {cols : List Nat} (hnd : cols.Nodup) {s : Search}
    (hlt : ∀ j ∈ cols, j < s.parents.length) : p.Scans μ i cols s (p.scan μ i cols s) := by
  induction cols generalizing s with
  | nil =>
    exact ⟨rfl, rfl, fun _ _ h => h, nofun, fun _ _ => rfl, fun _ => (List.append_nil _).symm⟩
  | cons j js ih =>
    obtain ⟨hnot, hnd⟩ := List.nodup_cons.mp hnd
    have hj := hlt j List.mem_cons_self
    have hjs : ∀ c ∈ js, c < s.parents.length := fun c hc => hlt c (List.mem_cons_of_mem j hc)
    unfold scan
    by_cases hopen : s.parent? j = none ∧ p.IsZero i j
    · rw [if_pos hopen]
      cases hrow : μ.row? j with
      | none => exact scans_free hj hopen hrow
      | some i' => exact .cons_paired hnot hj hopen hrow (ih hnd (by simpa using hjs))
    · rw [if_neg hopen]
      exact .cons_skipped hopen (ih hnd hjs)

/-! ## One turn of the search -/

section Turn

variable {s s' : Search} {i : Nat} {queue : List Nat}

theorem leave_of_nil (h : s.queue = []) : p.leave μ s = .inl (s, none) := by
  unfold leave
  rw [h]

theorem leave_of_some {j : Nat} (h : s.queue = i :: queue)
    (hscan : p.scan μ i (List.range p.ncols) { s with queue := queue } = (s', some j)) :
    p.leave μ s = .inl (s', some j) := by
  unfold leave
  rw [h]
  simp only [hscan]

theorem leave_of_none (h : s.queue = i :: queue)
    (hscan : p.scan μ i (List.range p.ncols) { s with queue := queue } = (s', none)) :
    p.leave μ s = .inr s' := by
  unfold leave
  rw [h]
  simp only [hscan]

end Turn

/-! ## The search against the walk -/

/-- The search stands where the walk stands with these unseen columns and this queue: its
    unset pointers are those of the unseen columns, its queue holds the same rows, and its
    pointers lead back along the paths that the walk carries. -/
structure Follows (p : ZeroPattern) (s : Search) (unseen : List Nat)
    (queue : List (Nat × AlternatingPath)) : Prop where
  length_eq : s.parents.length = p.ncols
  unseen_eq : unseen = (List.range p.ncols).filter fun j => s.parent? j = none
  queue_eq : s.queue = queue.map (·.1)
  shows : ∀ i path, (i, path) ∈ queue → s.Shows path

theorem follows_start (p : ZeroPattern) (i : Nat) :
    p.Follows (.start p.ncols i) (List.range p.ncols) [(i, [])] where
  length_eq := by simp [Search.start]
  unseen_eq := by simp
  queue_eq := rfl
  shows := by
    intro i' path hmem
    obtain ⟨rfl, rfl⟩ := Prod.mk.inj (List.mem_singleton.mp hmem)
    intro a b hab
    cases hab

section Step

variable {s : Search} {unseen : List Nat} {i : Nat} {path : AlternatingPath}
  {queue : List (Nat × AlternatingPath)} {r : Search × Option Nat}

/-- The fresh columns of the row left are the ones that the walk finds. -/
theorem Follows.found_eq (h : p.Follows s unseen ((i, path) :: queue)) :
    p.found unseen i path =
      (p.fresh s i (List.range p.ncols)).map fun j => (i, j) :: path := by
  unfold found fresh
  rw [h.unseen_eq, List.filter_filter]
  congr 1
  refine List.filter_congr fun j _ => ?_
  rw [Bool.eq_iff_iff]
  simp [mem_zerosOf, and_comm]

theorem mem_fresh {j : Nat} :
    j ∈ p.fresh s i (List.range p.ncols) ↔ s.parent? j = none ∧ p.IsZero i j := by
  simp only [fresh, List.mem_filter, List.mem_range, decide_eq_true_eq]
  exact ⟨fun h => h.2, fun h => ⟨h.2.lt_ncols, h⟩⟩

/-- The pointers lead back along every path found, once its last column points to the row. -/
theorem Follows.shows_found (h : p.Follows s unseen ((i, path) :: queue))
    (hr : p.Scans μ i (List.range p.ncols) { s with queue := queue.map (·.1) } r) {j : Nat}
    (hj : r.1.parent? j = some i) : r.1.Shows ((i, j) :: path) := by
  intro a b hab
  rcases List.mem_cons.mp hab with heq | hab
  · obtain ⟨rfl, rfl⟩ := Prod.mk.inj heq
    exact hj
  · exact hr.keeps b a (h.shows i path List.mem_cons_self a b hab)

/-- **Leaving a row that has no free column to offer keeps search and walk together.** -/
theorem Follows.step (h : p.Follows s unseen ((i, path) :: queue))
    (hr : p.Scans μ i (List.range p.ncols) { s with queue := queue.map (·.1) } r)
    (hnone : r.2 = none) :
    p.Follows r.1 (p.remaining unseen i) (queue ++ μ.continuations (p.found unseen i path)) where
  length_eq := hr.length_eq.trans h.length_eq
  unseen_eq := by
    unfold remaining
    rw [h.unseen_eq, List.filter_filter]
    refine List.filter_congr fun j _ => ?_
    have hparent : r.1.parent? j =
        if j ∈ p.fresh s i (List.range p.ncols) then some i else s.parent? j :=
      hr.parent?_eq hnone j
    rw [hparent, Bool.eq_iff_iff]
    by_cases hz : p.IsZero i j
    · by_cases hnew : s.parent? j = none <;> simp [mem_fresh, mem_zerosOf, hz, hnew]
    · simp [mem_fresh, mem_zerosOf, hz]
  queue_eq := by
    rw [hr.queue_eq hnone, List.map_append, h.found_eq, Matching.continuations,
      List.filterMap_map, List.map_filterMap]
    congr 1
    refine List.filterMap_congr fun j _ => ?_
    simp [Function.comp_def]
  shows := by
    intro i' q hq
    rcases List.mem_append.mp hq with hold | hnew
    · intro a b hab
      exact hr.keeps b a (h.shows i' q (List.mem_cons_of_mem _ hold) a b hab)
    · obtain ⟨hfound, _⟩ := Matching.mem_continuations.mp hnew
      rw [h.found_eq] at hfound
      obtain ⟨j, hj, rfl⟩ := List.mem_map.mp hfound
      exact h.shows_found hr ((hr.parent?_eq hnone j).trans (if_pos hj))

end Step

/-- **The search ends, with the last column of the first path of the walk to a free column.**
    Its pointers lead back along that path. -/
theorem seek_eq {s : Search} {unseen : List Nat} {queue : List (Nat × AlternatingPath)}
    (h : p.Follows s unseen queue) :
    ∃ s', p.seek μ s = .some (s', ((p.explore μ unseen queue).find? fun q =>
        (μ.next? q).isNone).bind (·.lastCol?)) ∧
      ∀ q, (p.explore μ unseen queue).find? (fun q => (μ.next? q).isNone) = some q →
        s'.Shows q := by
  -- The induction follows the walk; the search does one row at each step.
  fun_induction p.explore μ unseen queue generalizing s
  case case1 unseen =>
    refine ⟨s, loop_of_inl (leave_of_nil h.queue_eq), fun q hq => ?_⟩
    cases hq
  case case2 unseen i path queue paths ih =>
    have hr := p.scans_scan μ i (List.nodup_range (n := p.ncols))
      (s := { s with queue := queue.map (·.1) })
      (fun j hj => by simpa [h.length_eq] using hj)
    have hfound : paths.find? (fun q => (μ.next? q).isNone) =
        ((p.fresh s i (List.range p.ncols)).find? fun j => (μ.row? j).isNone).map
          fun j => (i, j) :: path := by
      rw [show paths = _ from h.found_eq, List.find?_map]
      rfl
    have hqueue : s.queue = i :: queue.map (·.1) := h.queue_eq
    rw [List.find?_append, hfound]
    generalize hscan : p.scan μ i (List.range p.ncols) { s with queue := queue.map (·.1) } = r at hr
    obtain ⟨s', found⟩ := r
    have hfree : (p.fresh s i (List.range p.ncols)).find? (fun j => (μ.row? j).isNone) = found :=
      hr.found_eq.symm
    rw [hfree]
    cases found with
    | some j =>
      refine ⟨s', loop_of_inl (leave_of_some hqueue hscan), fun q hq => ?_⟩
      obtain rfl := Option.some.inj hq
      exact h.shows_found hr (hr.free j rfl)
    | none =>
      have hgoes : p.seek μ s = p.seek μ s' := loop_of_inr (leave_of_none hqueue hscan)
      obtain ⟨t, hseek, hshows⟩ := ih (h.step hr rfl)
      exact ⟨t, by simpa [hgoes] using hseek, by simpa using hshows⟩

/-! ## The way back against the path -/

/-- **Reading a route backwards while flipping it flips the route.**  Entries may have been
    overwritten already, but none of a row that is still to come. -/
theorem Route.retrace_eq {s : Search} {start i j : Nat} {path : AlternatingPath}
    (h : p.Route μ [start] i path) (hμ : μ.Consistent) (hstart : μ.col? start = none)
    (hshows : s.Shows ((i, j) :: path)) {ν : Matching}
    (hν : ∀ r ∈ i :: path.rows, ν.col? r = μ.col? r) :
    s.retrace ν j = .some (ν.flip ((i, j) :: path)) := by
  have hparent : s.parent? j = some i := hshows i j List.mem_cons_self
  have hnodup := h.rows_nodup hμ (by simpa using hstart)
  -- The induction goes back along the route; the pairs made so far are part of `ν`.
  induction h generalizing j ν with
  | @root i hroot =>
    obtain rfl : i = start := by simpa using hroot
    have hnone : ν.col? i = none := (hν i List.mem_cons_self).trans hstart
    have hlast : s.turnBack (ν, j) = .inl (ν.assign i j) := by
      simp [Search.turnBack, hparent, hnone]
    exact loop_of_inl hlast
  | @step i j' i' path hroute hz hnew hrow ih =>
    have hcol : ν.col? i' = some j' :=
      (hν i' List.mem_cons_self).trans ((hμ i' j').mpr hrow)
    have hnext : s.turnBack (ν, j) = .inr (ν.assign i' j, j') := by
      simp [Search.turnBack, hparent, hcol]
    obtain ⟨hfirst, hrest⟩ := List.nodup_cons.mp hnodup
    refine (loop_of_inr hnext).trans (ih (fun a b hab => hshows a b (List.mem_cons_of_mem _ hab))
      (fun r hr => ?_) (hshows i j' (by simp)) hrest)
    -- The rows to come differ from the one whose entry was just overwritten.
    have hne : i' ≠ r := fun heq => hfirst (heq ▸ hr)
    rw [Matching.col?_assign, if_neg fun hc => hne hc.1]
    exact hν r (List.mem_cons_of_mem _ hr)

/-! ## One row and all rows -/

/-- **The search from an unpaired row ends, and so does the way back.**  They find and flip what
    the walk finds first. -/
theorem augmentInPlace_eq (hμ : μ.Consistent) {i : Nat} (hi : μ.col? i = none) :
    p.augmentInPlace μ i =
      .some (match p.augmentFrom? μ i with
        | none => (false, μ)
        | some ν => (true, ν)) := by
  obtain ⟨s, hseek, hshows⟩ := seek_eq (μ := μ) (p.follows_start i)
  have hpath : (p.explore μ (List.range p.ncols) [(i, [])]).find?
      (fun q => (μ.next? q).isNone) = p.augmentingPath? μ i := rfl
  rw [hpath] at hseek hshows
  unfold augmentInPlace augmentFrom?
  rw [hseek, Part.bind_some]
  cases hq : p.augmentingPath? μ i with
  | none => rfl
  | some q =>
    obtain ⟨a, j, rest, rfl, hroute, _, _⟩ := (augmenting_of_augmentingPath? hi hq).trail
    have hback := hroute.retrace_eq hμ hi (hshows _ hq) (fun r _ => rfl)
    show (s.retrace μ j).map (true, ·) = .some (true, μ.flip ((a, j) :: rest))
    rw [hback, Part.map_some]

theorem tryInPlace_eq (hμ : μ.Consistent) (i : Nat) :
    p.tryInPlace μ i = .some (p.augmentRow μ i) := by
  unfold tryInPlace augmentRow
  cases hi : μ.col? i with
  | some j => rfl
  | none =>
    have hgoal : (p.augmentInPlace μ i).map (·.2) = .some ((p.augmentFrom? μ i).getD μ) := by
      rw [augmentInPlace_eq hμ hi, Part.map_some]
      cases p.augmentFrom? μ i <;> rfl
    exact hgoal

theorem foldlM_tryInPlace (rows : List Nat) (hμ : p.Fits μ) :
    rows.foldlM p.tryInPlace μ = Part.some (rows.foldl p.augmentRow μ) := by
  induction rows generalizing μ with
  | nil => rfl
  | cons i rows ih =>
    rw [List.foldlM_cons, tryInPlace_eq hμ.consistent, Part.bind_eq_bind, Part.bind_some]
    exact ih (augmentRow_fits hμ i)

/-- **Trying all rows in place ends, and grows the matching as the walk does.** -/
theorem growInPlace_eq (hμ : p.Fits μ) : p.growInPlace μ = .some (p.augment μ) :=
  foldlM_tryInPlace _ hμ

end ZeroPattern

end LinearAssignment
