import LinearAssignment.Codec.Settings
import LinearAssignment.Codec.Solution
import LinearAssignment.Proofs.JsonText
import LinearAssignment.Proofs.Validation
import LinearAssignment.Solver

/-! # Solutions and settings survive their encoding

    A solution becomes data and data becomes text, and both ways back undo the way there.
    What is not finite has no written form, so the way back from data needs the numbers of the
    solution to be finite; the way back from text needs their texts to be read as them.  A cost
    matrix is validated as it is read, so the matrix of a solution passes validation again, and
    data with a matrix that validation refuses is no solution.

    * `Solution.ofJson?_toJson`: from data, part by part.
    * `Solution.legible_toJson`: the encoding holds only what text gives back.
    * `MatrixFault`, `Json.HoldsMatrix`: tables that no cost matrix has, and the place of a
      matrix in the data of a solution.
    * `encodings_read_back`: solutions and settings are read back, and no solution has a bad
      matrix. -/

namespace LinearAssignment

open Scalar

/-! ## From data -/

theorem Json.number?_ofFloat {x : Float} (h : x.isFinite = true) :
    (Json.ofFloat x).number? = some x := by
  rw [Json.ofFloat, if_pos h]
  rfl

theorem RawTable.ofJson?_toJson {table : RawTable Float}
    (h : ∀ x ∈ table.flatten, x.isFinite = true) : ofJson? (toJson table) = some table :=
  Json.list?_list fun row hrow => Json.list?_list fun x hx =>
    Json.number?_ofFloat (h x (List.mem_flatten.mpr ⟨row, hrow, hx⟩))

theorem CostMatrix.ofJson?_toJson (a : CostMatrix Float) : ofJson? a.toJson = some a := by
  rw [ofJson?, toJson, RawTable.ofJson?_toJson a.finite_cells, Option.bind_some, ofRows_rows]
  rfl

theorem Step.ofJson?_toJson {s : Step Float} (h : ∀ x ∈ s.matrix.flatten, x.isFinite = true) :
    ofJson? s.toJson = some s := by
  simp [ofJson?, toJson, Json.allFields?, Json.fields?, Json.onlyMember?, Json.str?,
    RawTable.ofJson?_toJson h]

namespace Solution

/-- All the numbers of a solution: its total, the cells of its source and those of its
    snapshots. -/
def numbers (s : Solution Float) : List Float :=
  s.totalCost :: (s.source.cells ++ s.trace.flatMap (·.matrix.flatten))

/-- All the counts of a solution. -/
def counts (s : Solution Float) : List Nat :=
  s.adjustments :: s.padding.dummyRows :: s.padding.dummyCols ::
    s.assignment.flatMap fun p => [p.row, p.col]

/-- **A solution with finite numbers is read back from its data.** -/
theorem ofJson?_toJson {s : Solution Float} (h : ∀ x ∈ s.numbers, x.isFinite = true) :
    ofJson? s.toJson = some s := by
  have htotal := Json.number?_ofFloat (h s.totalCost List.mem_cons_self)
  have htrace : Trace.ofJson? s.trace.toJson = some s.trace :=
    Json.list?_list fun step hstep => Step.ofJson?_toJson fun x hx =>
      have hmem := List.mem_flatMap.mpr ⟨step, hstep, hx⟩
      h x (List.mem_cons_of_mem _ (List.mem_append_right _ hmem))
  have hpairs : (Json.list Pair.toJson s.assignment).list? Pair.ofJson? = some s.assignment :=
    Json.list?_list fun p _ => Pair.ofJson?_toJson p
  have hfields : s.toJson.allFields? fieldNames = some [s.source.toJson,
      .list Pair.toJson s.assignment, .ofFloat s.totalCost, .bool s.objective.isMaximize,
      s.trace.toJson, s.padding.toJson, .nat s.adjustments] := rfl
  rw [ofJson?, hfields]
  simp [CostMatrix.ofJson?_toJson, hpairs, htotal, htrace, Json.bool?]

end Solution

/-! ## From text -/

theorem Json.legible_ofFloat {x : Float} (h : x.isFinite = true) (hx : ReadsBack x) :
    Legible (.ofFloat x) := by
  rw [ofFloat, if_pos h]
  exact .float hx

theorem Json.legible_list {α : Type} {encode : α → Json} {items : List α}
    (h : ∀ a ∈ items, Legible (encode a)) : Legible (list encode items) :=
  .arr (List.forall_mem_map.mpr h)

theorem RawTable.legible_toJson {table : RawTable Float}
    (h : ∀ x ∈ table.flatten, x.isFinite = true ∧ Json.ReadsBack x) :
    Json.Legible (toJson table) :=
  Json.legible_list fun row hrow => Json.legible_list fun x hx =>
    have hx := h x (List.mem_flatten.mpr ⟨row, hrow, hx⟩)
    Json.legible_ofFloat hx.1 hx.2

theorem Pair.legible_toJson {p : Pair} (hrow : p.row ≤ Json.NumberLiteral.wordMax)
    (hcol : p.col ≤ Json.NumberLiteral.wordMax) : Json.Legible p.toJson := by
  refine .obj ?_
  simp only [List.forall_mem_cons]
  exact ⟨.nat hrow, .nat hcol, List.forall_mem_nil _⟩

theorem Padding.legible_toJson {p : Padding} (hrows : p.dummyRows ≤ Json.NumberLiteral.wordMax)
    (hcols : p.dummyCols ≤ Json.NumberLiteral.wordMax) : Json.Legible p.toJson := by
  refine .obj ?_
  simp only [List.forall_mem_cons]
  exact ⟨.nat hrows, .nat hcols, List.forall_mem_nil _⟩

theorem Step.legible_toJson {s : Step Float}
    (h : ∀ x ∈ s.matrix.flatten, x.isFinite = true ∧ Json.ReadsBack x) :
    Json.Legible s.toJson := by
  refine .obj ?_
  simp only [List.forall_mem_cons]
  exact ⟨.str s.label, RawTable.legible_toJson h, List.forall_mem_nil _⟩

/-- **The data of a solution are legible**, when its numbers are read back and its counts are
    machine words. -/
theorem Solution.legible_toJson {s : Solution Float}
    (h : ∀ x ∈ s.numbers, x.isFinite = true ∧ Json.ReadsBack x)
    (hcounts : ∀ n ∈ s.counts, n ≤ Json.NumberLiteral.wordMax) : Json.Legible s.toJson := by
  obtain ⟨htotal, hcells⟩ := List.forall_mem_cons.mp h
  obtain ⟨hsource, htrace⟩ := List.forall_mem_append.mp hcells
  obtain ⟨hadjustments, hcounts⟩ := List.forall_mem_cons.mp hcounts
  obtain ⟨hrows, hcounts⟩ := List.forall_mem_cons.mp hcounts
  obtain ⟨hcols, hpairs⟩ := List.forall_mem_cons.mp hcounts
  have hsteps : Json.Legible s.trace.toJson := Json.legible_list fun step hstep =>
    Step.legible_toJson fun x hx => htrace x (List.mem_flatMap.mpr ⟨step, hstep, hx⟩)
  have hassignment : Json.Legible (.list Pair.toJson s.assignment) :=
    Json.legible_list fun p hp => Pair.legible_toJson
      (hpairs p.row (List.mem_flatMap.mpr ⟨p, hp, by simp⟩))
      (hpairs p.col (List.mem_flatMap.mpr ⟨p, hp, by simp⟩))
  refine .obj ?_
  simp only [List.forall_mem_cons]
  exact ⟨RawTable.legible_toJson hsource, hassignment, Json.legible_ofFloat htotal.1 htotal.2,
    .bool _, hsteps, Padding.legible_toJson hrows hcols, .nat hadjustments, List.forall_mem_nil _⟩

namespace Config

@[simp] theorem ofJson?_toJson (c : Config) : ofJson? c.toJson = some c := by
  simp [ofJson?, toJson, Json.fields?, Json.onlyMember?, fieldNames, part?, Json.bool?]

theorem legible_toJson {c : Config}
    (h : ∀ limit ∈ c.dimensionLimit, limit ≤ Json.NumberLiteral.wordMax) :
    Json.Legible c.toJson := by
  have hlimit : Json.Legible (.option .nat c.dimensionLimit) := by
    cases hc : c.dimensionLimit with
    | none => exact .null
    | some limit => exact .nat (h limit hc)
  refine .obj ?_
  simp only [List.forall_mem_cons]
  exact ⟨.str _, hlimit, .bool _, List.forall_mem_nil _⟩

/-- **Valid settings are read back from their text.** -/
theorem ofText_compact {K : Type} {c : Config} (hvalid : c.fault? = none)
    (h : ∀ limit ∈ c.dimensionLimit, limit ≤ Json.NumberLiteral.wordMax) :
    ofText (K := K) c.toJson.compact = .ok c := by
  rw [ofText, Json.parse?_compact (legible_toJson h)]
  simp only [read, ofJson?_toJson, validated, hvalid]
  rfl

end Config

/-! ## Matrices that are refused -/

/-- What keeps cells from being a cost matrix: there is none, their rows differ in length, or
    their numbers are out of range. -/
inductive MatrixFault (cells : RawTable Json) : Prop where
  | empty : cells.IsEmpty → MatrixFault cells
  | ragged : ¬ cells.IsRectangular → MatrixFault cells
  | outOfRange {values : RawTable Float} {lo hi : Float} : cells.Reads Json.number? values →
      IsSmallest values.flatten lo → IsLargest values.flatten hi →
      OutOfRange lo hi (max cells.length cells.width) → MatrixFault cells

/-- The data give this value for the source of a solution, by name or as the first part. -/
inductive Json.HoldsMatrix : Json → Json → Prop where
  | member {members : List (String × Json)} {matrix : Json} :
      ("original_matrix", matrix) ∈ members → HoldsMatrix (.obj members) matrix
  | first {matrix : Json} {items : List Json} : HoldsMatrix (.arr (matrix :: items)) matrix

theorem forall₂_of_mapM {α β : Type} {f : α → Option β} {l : List α} {l' : List β}
    (h : l.mapM f = some l') : List.Forall₂ (fun a b => f a = some b) l l' := by
  induction l generalizing l' with
  | nil =>
    obtain rfl := Option.some.inj h
    exact .nil
  | cons a l ih =>
    rw [List.mapM_cons] at h
    obtain ⟨b, hb, h⟩ := Option.bind_eq_some_iff.mp h
    obtain ⟨bs, hbs, h⟩ := Option.bind_eq_some_iff.mp h
    obtain rfl := Option.some.inj h
    exact .cons hb (ih hbs)

theorem mapM_of_forall₂ {α β : Type} {f : α → Option β} {l : List α} {l' : List β}
    (h : List.Forall₂ (fun a b => f a = some b) l l') : l.mapM f = some l' := by
  induction h with
  | nil => rfl
  | cons hab _ ih =>
    rw [List.mapM_cons, hab, ih]
    rfl

theorem reads_of_ofJson? {cells : RawTable Json} {values : RawTable Float}
    (h : RawTable.ofJson? (.arr (cells.map .arr)) = some values) :
    cells.Reads Json.number? values := by
  have hrows := forall₂_of_mapM h
  rw [List.forall₂_map_left_iff] at hrows
  exact RawTable.reads_iff.mpr (hrows.imp fun _ _ => forall₂_of_mapM)

/-- Cells with a fault are no cost matrix. -/
theorem MatrixFault.ofJson?_eq_none {cells : RawTable Json} (h : MatrixFault cells) :
    CostMatrix.ofJson? (.arr (cells.map .arr)) = none := by
  cases hvalues : RawTable.ofJson? (.arr (cells.map .arr)) with
  | none =>
    rw [CostMatrix.ofJson?, hvalues]
    rfl
  | some values =>
    have hreads := reads_of_ofJson? hvalues
    have hverdict := RawTable.verdict_ofRows values
    rw [CostMatrix.ofJson?, hvalues, Option.bind_some]
    cases hrows : CostMatrix.ofRows values with
    | error failure => rfl
    | ok a =>
      -- An accepted table has none of the faults.
      rw [hrows] at hverdict
      have hsame := CostMatrix.rows_of_ofRows hrows
      cases hverdict with
      | @accepted _ lo hi hne hrect _ _ hlo hhi hin =>
        exfalso
        rw [hreads.length_eq, hreads.width_eq] at hin
        cases h with
        | empty hempty => exact hne (hreads.isEmpty_iff.mpr hempty)
        | ragged hragged => exact hragged (hreads.isRectangular_iff.mp hrect)
        | @outOfRange values' lo' hi' hreads' hlo' hhi' hout =>
          obtain rfl := hreads.unique hreads'
          rw [← hsame] at hlo' hhi'
          exact hin ((outOfRange_congr a.finite_cells hlo' hlo hhi' hhi _).mp hout)

/-- A name that is found names only that value. -/
theorem Json.eq_of_onlyMember? {members : List (String × Json)} {name : String} {value m : Json}
    (h : onlyMember? members name = some (some value)) (hm : (name, m) ∈ members) :
    value = m := by
  have hmem : (name, m) ∈ members.filter (·.1 == name) :=
    List.mem_filter.mpr ⟨hm, beq_self_eq_true name⟩
  unfold onlyMember? at h
  split at h
  · cases h
  · next hfilter =>
    rw [hfilter, List.mem_singleton] at hmem
    cases hmem
    cases h
    rfl
  · cases h

/-- The first part of the fields of a solution is the value for its source. -/
theorem Json.HoldsMatrix.eq_of_allFields? {j matrix source : Json} {parts : List Json}
    (hj : j.HoldsMatrix matrix) (h : j.allFields? Solution.fieldNames = some (source :: parts)) :
    source = matrix := by
  obtain ⟨found, hfound, hall⟩ := Option.bind_eq_some_iff.mp h
  obtain ⟨rfl⟩ | ⟨hsource, _⟩ := forall₂_of_mapM hall
  -- A member has the name of the first field, and a list gives the fields in their order.
  cases hj with
  | member hmember =>
    obtain ⟨⟩ | ⟨hname, _⟩ := forall₂_of_mapM hfound
    rw [id_eq] at hsource
    rw [hsource] at hname
    exact eq_of_onlyMember? hname hmember
  | first =>
    rw [fields?] at hfound
    split at hfound
    · cases hfound
      exact (Option.some.inj hsource).symm
    · cases hfound

/-- The source of a solution is read from the value that the data give for it. -/
theorem Solution.source_of_ofJson? {j matrix : Json} {s : Solution Float}
    (h : ofJson? j = some s) (hj : j.HoldsMatrix matrix) :
    CostMatrix.ofJson? matrix = some s.source := by
  unfold ofJson? at h
  split at h
  · next hfields =>
    obtain rfl := hj.eq_of_allFields? hfields
    simp only [bind, Option.bind_eq_some_iff, pure, Option.some.injEq] at h
    obtain ⟨a, ha, _, _, _, _, _, _, _, _, _, _, _, _, rfl⟩ := h
    exact ha
  · cases h

/-- **Solutions and settings are read back as they were written.**  A solution with finite
    numbers is read back from its data, and from its text when the texts of its numbers are read
    as these numbers and its counts are machine words; valid settings are read back from their
    text.  Data whose matrix is empty, ragged or out of range are no solution. -/
theorem encodings_read_back :
    (∀ s : Solution Float, (∀ x ∈ s.numbers, x.isFinite = true) →
      Solution.ofJson? s.toJson = some s) ∧
    (∀ s : Solution Float, (∀ x ∈ s.numbers, x.isFinite = true ∧ Json.ReadsBack x) →
      (∀ n ∈ s.counts, n ≤ Json.NumberLiteral.wordMax) →
        (Json.parse? s.toJson.compact).bind Solution.ofJson? = some s) ∧
    (∀ c : Config, c.fault? = none →
      (∀ limit ∈ c.dimensionLimit, limit ≤ Json.NumberLiteral.wordMax) →
        Config.ofText (K := Float) c.toJson.compact = .ok c) ∧
    ∀ (j : Json) (cells : RawTable Json), j.HoldsMatrix (.arr (cells.map .arr)) →
      MatrixFault cells → Solution.ofJson? j = none := by
  refine ⟨fun s => Solution.ofJson?_toJson, ?_, fun c => Config.ofText_compact, ?_⟩
  · intro s h hcounts
    rw [Json.parse?_compact (Solution.legible_toJson h hcounts), Option.bind_some]
    exact Solution.ofJson?_toJson fun x hx => (h x hx).1
  · intro j cells hj hfault
    cases hs : Solution.ofJson? j with
    | none => rfl
    | some s =>
      have hsource := Solution.source_of_ofJson? hs hj
      rw [hfault.ofJson?_eq_none] at hsource
      cases hsource

/-- The answer for a wide table under a limit, and a matrix whose span overflows in data that
    are complete otherwise. -/
theorem encodings_read_back_rewards :
    let solver : Solver := ⟨⟨.maximize, some 5, true⟩, rfl⟩
    let table : RawTable Float := [[1.5, 2, 0.1], [3, 4.25, -7]]
    let cells : RawTable Json := [[.float 1e308, .float (-1e308)]]
    (∃ s, solver.solve table = .ok s ∧ Solution.ofJson? s.toJson = some s ∧
      (Json.parse? s.toJson.compact).bind Solution.ofJson? = some s) ∧
      Config.ofText (K := Float) solver.config.toJson.compact = .ok solver.config ∧
      Solution.ofJson? (.arr [.arr (cells.map .arr), .arr [], .int 0, .bool false, .arr [],
        (Padding.toJson ⟨1, 0⟩), .int 0]) = none := by
  intro solver table cells
  obtain ⟨hdata, htext, hsettings, hfaults⟩ := encodings_read_back
  refine ⟨?_, hsettings solver.config rfl (by decide), hfaults _ cells .first ?_⟩
  · -- The conditions are decided on the answer that is computed.
    have hkept : (solver.solve table).toOption.map (fun s =>
        decide ((∀ x ∈ s.numbers, x.isFinite = true ∧ Json.ReadsBack x) ∧
          ∀ n ∈ s.counts, n ≤ Json.NumberLiteral.wordMax)) = some true := by
      decide +kernel
    cases hs : solver.solve table with
    | error failure =>
      rw [hs] at hkept
      cases hkept
    | ok s =>
      rw [hs] at hkept
      obtain ⟨hnumbers, hcounts⟩ := of_decide_eq_true (Option.some.inj hkept)
      exact ⟨s, rfl, hdata s fun x hx => (hnumbers x hx).1, htext s hnumbers hcounts⟩
  · have hrange : inRange (-1e308 : Float) 1e308 2 = false := by decide +kernel
    have hreads : cells.Reads Json.number? [[1e308, -1e308]] := rfl
    refine .outOfRange hreads ⟨by simp, ?_⟩ ⟨by simp, ?_⟩ (inRange_eq_false_iff.mp hrange)
    · decide +kernel
    · decide +kernel

end LinearAssignment
