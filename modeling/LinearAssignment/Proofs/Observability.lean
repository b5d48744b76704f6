import LinearAssignment.Proofs.Recording

/-! # The settings that have no part in the answer

    Solvers with one objective may differ in their dimension limit and in whether they record
    the trace.  The limit only refuses matrices, after their validation, and the trace switch
    only decides how much of the trace a solution keeps.

    * `Solution.SameButTrace`: what two solutions have in common.
    * `Solver.Indifferent`: what two solvers make of one input.
    * `limit_and_trace_indifferent`: solvers with one objective are indifferent. -/

namespace LinearAssignment

variable {K : Type} [Scalar K]

/-- Two solutions that differ in their traces at most. -/
structure Solution.SameButTrace (sol sol' : Solution K) : Prop where
  source : sol.source = sol'.source
  assignment : sol.assignment = sol'.assignment
  totalCost : sol.totalCost = sol'.totalCost
  objective : sol.objective = sol'.objective
  padding : sol.padding = sol'.padding
  adjustments : sol.adjustments = sol'.adjustments

/-- The trace is the first snapshot of the full one, and nothing more. -/
def Trace.IsFirstOf (t full : Trace K) : Prop := ∃ first rest, full = first :: rest ∧ t = [first]

namespace Solver

/-- Two solvers within whose limits a matrix lies have the same outcome for it: one failure, or
    two solutions that differ in their traces at most, as far as their settings differ. -/
inductive SameOutcome (s s' : Solver) :
    Except (Failure K) (Solution K) → Except (Failure K) (Solution K) → Prop where
  | failed (failure : Failure K) : SameOutcome s s' (.error failure) (.error failure)
  | solved {sol sol' : Solution K} : sol.SameButTrace sol' →
      (s.config.recordTrace = s'.config.recordTrace → sol.trace = sol'.trace) →
      (s.config.recordTrace = true → s'.config.recordTrace = false →
        sol'.trace.IsFirstOf sol.trace) →
      (s.config.recordTrace = false → s'.config.recordTrace = true →
        sol.trace.IsFirstOf sol'.trace) →
      SameOutcome s s' (.ok sol) (.ok sol')

/-- The solver has this limit, and the larger dimension of the matrix exceeds it. -/
def Exceeded (s : Solver) (a : CostMatrix K) (limit : Nat) : Prop :=
  s.config.dimensionLimit = some limit ∧ limit < max a.nrows a.ncols

/-- What two solvers make of an input with this validation: the failure of validation if there
    is one; else each refuses the matrix when it exceeds the limit of the solver, and when it
    exceeds neither limit they have the same outcome. -/
structure Indifferent (s s' : Solver) (validated : Except (Failure K) (CostMatrix K))
    (outcome outcome' : Except (Failure K) (Solution K)) : Prop where
  invalid : ∀ failure, validated = .error failure →
    outcome = .error failure ∧ outcome' = .error failure
  tooLarge_iff : ∀ a, validated = .ok a → ∀ dimension limit,
    (outcome = .error (.matrixTooLarge dimension limit) ↔
      dimension = max a.nrows a.ncols ∧ s.Exceeded a limit) ∧
    (outcome' = .error (.matrixTooLarge dimension limit) ↔
      dimension = max a.nrows a.ncols ∧ s'.Exceeded a limit)
  same : ∀ a, validated = .ok a → (∀ limit, ¬ s.Exceeded a limit) →
    (∀ limit, ¬ s'.Exceeded a limit) → SameOutcome s s' outcome outcome'

variable {s s' : Solver} {a : CostMatrix K}

theorem exceededLimit?_eq_some_iff {limit : Nat} :
    s.exceededLimit? a = some limit ↔ s.Exceeded a limit := by
  unfold exceededLimit? Exceeded
  rw [Option.filter_eq_some_iff, decide_eq_true_eq]
  rfl

theorem exceededLimit?_eq_none_iff :
    s.exceededLimit? a = none ↔ ∀ limit, ¬ s.Exceeded a limit := by
  rw [Option.eq_none_iff_forall_ne_some]
  exact forall_congr' fun limit => not_congr exceededLimit?_eq_some_iff

/-- A run is never refused for its size. -/
theorem outcome_ne_matrixTooLarge (r : Run K) (dimension limit : Nat) :
    r.outcome ≠ .error (.matrixTooLarge dimension limit) := by
  unfold Run.outcome
  cases r.descent.outcome <;> simp

theorem solveMatrix_of_exceeded {limit : Nat} (h : s.Exceeded a limit) :
    s.solveMatrix a = .error (.matrixTooLarge (max a.nrows a.ncols) limit) := by
  rw [solveMatrix, answer, exceededLimit?_eq_some_iff.mpr h]
  rfl

theorem solveMatrix_of_not_exceeded (h : ∀ limit, ¬ s.Exceeded a limit) :
    s.solveMatrix a = a.execute s.config.objective s.config.recordTrace := by
  rw [solveMatrix, answer, exceededLimit?_eq_none_iff.mpr h]
  show (Run.ofSource s.config a).outcome = _
  exact Run.outcome_eq_execute s.config a

theorem solveMatrix_eq_tooLarge_iff {dimension limit : Nat} :
    s.solveMatrix a = .error (.matrixTooLarge dimension limit) ↔
      dimension = max a.nrows a.ncols ∧ s.Exceeded a limit := by
  constructor
  · intro h
    cases hlimit : s.exceededLimit? a with
    | some limit' =>
      have hexceeded := exceededLimit?_eq_some_iff.mp hlimit
      rw [solveMatrix_of_exceeded hexceeded] at h
      cases h
      exact ⟨rfl, hexceeded⟩
    | none =>
      rw [solveMatrix, answer, hlimit] at h
      exact absurd h (outcome_ne_matrixTooLarge _ dimension limit)
  · rintro ⟨rfl, hexceeded⟩
    exact solveMatrix_of_exceeded hexceeded

/-- The full trace of an answer has begun. -/
theorem exists_first_of_execute {o : Objective} {full : Solution K}
    (h : a.execute o true = .ok full) : ∃ first rest, full.trace = first :: rest := by
  have houtcome := Run.outcome_eq_execute ⟨o, none, true⟩ a
  rw [h] at houtcome
  obtain ⟨μ, _, rfl⟩ := Run.outcome_eq_ok_iff.mp houtcome
  exact ⟨_, _, rfl⟩

/-- **Executions with one objective come to one outcome, of which each keeps its trace.** -/
theorem sameOutcome_execute (h : s.config.objective = s'.config.objective) (a : CostMatrix K) :
    SameOutcome s s' (a.execute s.config.objective s.config.recordTrace)
      (a.execute s'.config.objective s'.config.recordTrace) := by
  rw [a.execute_kept _ s.config.recordTrace, a.execute_kept _ s'.config.recordTrace, ← h]
  cases hfull : a.execute s.config.objective true with
  | error failure => exact .failed failure
  | ok full =>
    obtain ⟨first, rest, htrace⟩ := exists_first_of_execute hfull
    have hfirst : (full.trace.kept false).IsFirstOf (full.trace.kept true) := by
      rw [htrace]
      exact ⟨first, rest, rfl, rfl⟩
    refine .solved ⟨rfl, rfl, rfl, rfl, rfl, rfl⟩ ?_ ?_ ?_
    · intro hsame
      rw [hsame]
    · intro hon hoff
      rw [hon, hoff]
      exact hfirst
    · intro hoff hon
      rw [hon, hoff]
      exact hfirst

/-- Solvers with one objective are indifferent, however their input was validated. -/
theorem indifferent_answerValidated (h : s.config.objective = s'.config.objective)
    (validated : Except (Failure K) (CostMatrix K)) :
    Indifferent s s' validated (s.answerValidated validated).outcome
      (s'.answerValidated validated).outcome := by
  cases validated with
  | error failure =>
    refine ⟨?_, nofun, nofun⟩
    rintro _ ⟨⟩
    exact ⟨rfl, rfl⟩
  | ok a =>
    refine ⟨nofun, ?_, ?_⟩
    · rintro _ ⟨⟩ dimension limit
      exact ⟨solveMatrix_eq_tooLarge_iff, solveMatrix_eq_tooLarge_iff⟩
    · rintro _ ⟨⟩ hlimit hlimit'
      have hsame := sameOutcome_execute h a
      rw [← solveMatrix_of_not_exceeded hlimit, ← solveMatrix_of_not_exceeded hlimit'] at hsame
      exact hsame

end Solver

/-- **The limit and the trace switch have no part in the answer.**  Whatever the input and the
    scalars, two solvers with one objective report one failure of validation; each refuses a
    matrix exactly when it exceeds the limit of this solver; and otherwise they fail alike, or
    answer with solutions that differ only in how much of the trace they keep. -/
theorem limit_and_trace_indifferent (s s' : Solver)
    (h : s.config.objective = s'.config.objective) :
    (∀ (K : Type) [Scalar K] (a : CostMatrix K),
      s.Indifferent s' (.ok a) (s.solveMatrix a) (s'.solveMatrix a)) ∧
    (∀ (K : Type) [Scalar K] (table : RawTable K),
      s.Indifferent s' (CostMatrix.ofRows table) (s.solve table) (s'.solve table)) ∧
    ∀ j : Json, s.Indifferent s' (CostMatrix.ofJson j) (s.solveJson j) (s'.solveJson j) :=
  ⟨fun _ _ a => Solver.indifferent_answerValidated h (.ok a),
    fun _ _ table => Solver.indifferent_answerValidated h (CostMatrix.ofRows table),
    fun j => Solver.indifferent_answerValidated h (CostMatrix.ofJson j)⟩

/-- Products to be maximized with a column too few: a solver that records, one that does not
    and whose limit is just met, and one whose limit is exceeded. -/
theorem limit_and_trace_indifferent_products :
    let s : Solver := ⟨⟨.maximize, none, true⟩, rfl⟩
    let silent : Solver := ⟨⟨.maximize, some 4, false⟩, rfl⟩
    let strict : Solver := ⟨⟨.maximize, some 3, true⟩, rfl⟩
    let a : CostMatrix Rat := ⟨⟨3, [[1, 2, 3], [2, 4, 6], [3, 6, 9], [4, 8, 12]], by decide⟩,
      by decide, by decide, by decide, by decide +kernel⟩
    s.config.objective = silent.config.objective ∧
      (∃ sol sol', s.solveMatrix a = .ok sol ∧ silent.solveMatrix a = .ok sol' ∧
        sol.SameButTrace sol' ∧ sol'.trace.IsFirstOf sol.trace) ∧
      strict.solveMatrix a = .error (.matrixTooLarge 4 3) := by
  intro s silent strict a
  have hwithin : ∀ limit, ¬ silent.Exceeded a limit := by
    rintro _ ⟨⟨⟩, hlt⟩
    exact absurd hlt (by decide)
  refine ⟨rfl, ?_, ?_⟩
  · have hsame := ((limit_and_trace_indifferent s silent rfl).1 Rat a).same a rfl nofun hwithin
    have hsolved : (s.solveMatrix a).toOption.isSome = true := by decide +kernel
    generalize s.solveMatrix a = outcome at hsame hsolved
    generalize silent.solveMatrix a = outcome' at hsame
    cases hsame with
    | failed failure => cases hsolved
    | solved hanswer _ hfirst _ => exact ⟨_, _, rfl, rfl, hanswer, hfirst rfl rfl⟩
  · refine (((limit_and_trace_indifferent s strict rfl).1 Rat a).tooLarge_iff a rfl 4 3).2.mpr ?_
    exact ⟨rfl, rfl, by decide⟩

end LinearAssignment
