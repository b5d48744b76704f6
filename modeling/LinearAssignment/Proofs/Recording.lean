import LinearAssignment.Proofs.Runs

/-! # Recording on the way

    A run keeps all its matrices, and the trace is a view of them.  Here the solver writes the
    trace as it goes: it adds a snapshot at every checkpoint, unless the trace is switched off.
    The two ways give the same outcome, and what the switch does can be followed through the
    loop.

    * `Trace.kept`: what is kept of a full trace.
    * `Grid.loop`, `CostMatrix.execute`: the solver with its checkpoints.
    * `Grid.loop_kept`, `CostMatrix.execute_kept`: the switch decides what is kept, and nothing
      else.
    * `Run.outcome_eq_execute`: the outcome of a run is that of the execution. -/

namespace LinearAssignment

/-! ## Checkpoints -/

namespace Trace

variable {K : Type}

/-- The trace after a checkpoint, where a switch decides whether the snapshot is added. -/
def checkpoint (recording : Bool) (label : String) (g : Grid K) (t : Trace K) : Trace K :=
  if recording then t.record label g else t

/-- What is kept of a full trace: all of it, or the first snapshot alone. -/
def kept (recording : Bool) (full : Trace K) : Trace K :=
  if recording then full else full.take 1

/-- The trace is what is kept of a full trace that has begun. -/
structure Keeps (recording : Bool) (t full : Trace K) : Prop where
  begun : full ≠ []
  eq_kept : t = full.kept recording

theorem keeps_singleton (recording : Bool) (first : Step K) :
    Keeps recording [first] [first] :=
  ⟨List.cons_ne_nil _ _, by cases recording <;> rfl⟩

/-- **A checkpoint adds to what is kept what it adds to the full trace, if anything.** -/
theorem Keeps.checkpoint {recording : Bool} {t full : Trace K} (h : Keeps recording t full)
    (label : String) (g : Grid K) :
    Keeps recording (t.checkpoint recording label g) (full.checkpoint true label g) := by
  obtain ⟨hbegun, rfl⟩ := h
  obtain ⟨first, rest, rfl⟩ := List.exists_cons_of_ne_nil hbegun
  refine ⟨List.cons_ne_nil _ _, ?_⟩
  cases recording <;> rfl

end Trace

/-! ## The solver with its checkpoints -/

variable {K : Type} [Scalar K]

/-- The matching that an ending comes to after so many adjustments, or the defect. -/
def Ending.result (adjustments : Nat) : Ending K → Except (Defect K) Matching
  | .complete μ => .ok μ
  | .stuck _ _ defect => .error defect
  | .exhausted => .error (.unfinished adjustments)

/-- How the loop labels the matrix after an adjustment. -/
def adjustmentLabel (d : K) : String := s!"Adjust matrix (min uncovered: {Scalar.text d})"

/-- The loop on a working matrix, with a checkpoint after each adjustment: the matching that it
    finds, the number of adjustments and the trace. -/
def Grid.loop (recording : Bool) (budget adjustments : Nat) (t : Trace K) (g : Grid K) :
    Except (Defect K) (Matching × Nat × Trace K) :=
  match g.round with
  | .error ending => (ending.result adjustments).map fun μ => (μ, adjustments, t)
  | .ok r =>
    let t := t.checkpoint recording (adjustmentLabel r.value) r.matrix
    match budget with
    | 0 => .error (.unfinished (adjustments + 1))
    | budget + 1 => r.matrix.loop recording budget (adjustments + 1) t

namespace CostMatrix

/-- The trace of the stages before the loop, with a checkpoint after each. -/
def prepare (o : Objective) (recording : Bool) (a : CostMatrix K) : Trace K :=
  let costs := o.costs a.toGrid
  let balanced := costs.balanced
  let input := Trace.record [] "Input matrix" a.toGrid
  let converted :=
    if o.isMaximize then
      input.checkpoint recording "Convert maximization to minimization" costs
    else input
  let squared := match a.padding.label? with
    | some label => converted.checkpoint recording label balanced
    | none => converted
  (squared.checkpoint recording "Row reduction" balanced.reduceRows).checkpoint recording
    "Column reduction" balanced.reduceRows.reduceColumns

/-- The solution for a complete matching, found after so many adjustments. -/
def finish (o : Objective) (a : CostMatrix K) (μ : Matching) (adjustments : Nat)
    (trace : Trace K) : Solution K :=
  let real := μ.pairs.filter fun (i, j) => i < a.nrows && j < a.ncols
  let assignment := real.map fun (i, j) => ⟨i, j⟩
  { source := a
    assignment := assignment
    totalCost := Scalar.total (assignment.filterMap fun p => a.cell? p.row p.col)
    objective := o
    trace := trace
    padding := a.padding
    adjustments := adjustments }

/-- Solve an accepted matrix, with a checkpoint after every stage. -/
def execute (o : Objective) (recording : Bool) (a : CostMatrix K) :
    Except (Failure K) (Solution K) :=
  let reduced := (o.costs a.toGrid).balanced.reduceRows.reduceColumns
  match reduced.loop recording (roundBudget reduced.nrows) 0 (a.prepare o recording) with
  | .error defect => .error (.invariantViolated defect)
  | .ok (μ, adjustments, trace) => .ok (a.finish o μ adjustments trace)

end CostMatrix

/-! ## What the switch decides -/

/-- **The switch does not touch the loop but for what it keeps of the trace.** -/
theorem Grid.loop_kept {recording : Bool} (budget adjustments : Nat) {t full : Trace K}
    (h : t.Keeps recording full) (g : Grid K) :
    g.loop recording budget adjustments t =
      (g.loop true budget adjustments full).map fun (μ, n, t) => (μ, n, t.kept recording) := by
  -- On the budget, for all traces: the relation between the two survives each checkpoint.
  induction budget generalizing adjustments t full g with
  | zero =>
    unfold loop
    cases g.round with
    | error ending =>
      rw [h.eq_kept]
      cases ending <;> rfl
    | ok r => rfl
  | succ budget ih =>
    unfold loop
    cases g.round with
    | error ending =>
      rw [h.eq_kept]
      cases ending <;> rfl
    | ok r => exact ih (adjustments + 1) (h.checkpoint _ _) r.matrix

namespace CostMatrix

/-- The stages before the loop are recorded likewise. -/
theorem keeps_prepare (o : Objective) (recording : Bool) (a : CostMatrix K) :
    (a.prepare o recording).Keeps recording (a.prepare o true) := by
  have hinput := Trace.keeps_singleton recording (.ofGrid "Input matrix" a.toGrid)
  unfold prepare
  refine Trace.Keeps.checkpoint (Trace.Keeps.checkpoint ?_ _ _) _ _
  -- The conversion and the squaring are there or not, whatever the switch says.
  cases o with
  | minimize =>
    cases a.padding.label? with
    | none => exact hinput
    | some label => exact hinput.checkpoint _ _
  | maximize =>
    cases a.padding.label? with
    | none => exact hinput.checkpoint _ _
    | some label => exact (hinput.checkpoint _ _).checkpoint _ _

/-- **The switch decides how much of the trace a solution keeps, and nothing else.** -/
theorem execute_kept (o : Objective) (recording : Bool) (a : CostMatrix K) :
    a.execute o recording =
      (a.execute o true).map fun sol => { sol with trace := sol.trace.kept recording } := by
  unfold execute
  simp only
  rw [Grid.loop_kept _ _ (a.keeps_prepare o recording)]
  cases (o.costs a.toGrid).balanced.reduceRows.reduceColumns.loop true _ 0 _ <;> rfl

end CostMatrix

/-! ## Views and executions -/

/-- **The loop finds what a descent comes to, and records the rounds of it.** -/
theorem Grid.loop_eq_descend (recording : Bool) (budget adjustments : Nat) (t : Trace K)
    (g : Grid K) :
    let d := g.descend budget
    g.loop recording budget adjustments t =
      (d.ending.result (adjustments + d.rounds.length)).map fun μ =>
        (μ, adjustments + d.rounds.length, t ++ if recording then d.steps else []) := by
  -- The loop counts and records from the front, the descent lists its rounds from the front.
  induction budget generalizing adjustments t g with
  | zero =>
    unfold loop descend
    cases g.round with
    | error ending => cases recording <;> simp [Descent.steps]
    | ok r => rfl
  | succ budget ih =>
    unfold loop descend
    cases g.round with
    | error ending => cases recording <;> simp [Descent.steps]
    | ok r =>
      have hcount : adjustments + 1 + (r.matrix.descend budget).rounds.length =
          adjustments + (r :: (r.matrix.descend budget).rounds).length := by
        rw [List.length_cons]
        omega
      have htrace : (t.checkpoint recording (adjustmentLabel r.value) r.matrix ++
          if recording then (r.matrix.descend budget).steps else []) =
          t ++ if recording then
            Descent.steps ⟨r :: (r.matrix.descend budget).rounds,
              (r.matrix.descend budget).ending⟩ else [] := by
        cases recording with
        | false => rfl
        | true => exact List.append_assoc ..
      simp only
      rw [ih, hcount, htrace]

namespace Run

/-- The trace of a run is the trace recorded before the loop and in it. -/
theorem trace_eq_append (c : Config) (a : CostMatrix K) :
    (ofSource c a).trace = a.prepare c.objective c.recordTrace ++
      if c.recordTrace then (ofSource c a).descent.steps else [] := by
  have hsteps : (ofSource c a).steps =
      a.prepare c.objective true ++ (ofSource c a).descent.steps := by
    unfold steps CostMatrix.prepare
    rw [List.append_left_inj]
    show _ ++ (a.padding.label?.map _).toList ++ _ = _
    cases hc : c.objective <;> cases a.padding.label? <;>
      simp [ofSource, Trace.checkpoint, Trace.record, Objective.isMaximize, hc]
  have hkept := a.keeps_prepare c.objective c.recordTrace
  show (ofSource c a).steps.kept c.recordTrace = _
  rw [hkept.eq_kept, hsteps]
  obtain ⟨first, rest, hfirst⟩ := List.exists_cons_of_ne_nil hkept.begun
  rw [hfirst]
  cases c.recordTrace <;> rfl

/-- **The outcome of a run is that of the execution with its settings.** -/
theorem outcome_eq_execute (c : Config) (a : CostMatrix K) :
    (ofSource c a).outcome = a.execute c.objective c.recordTrace := by
  have hloop : (ofSource c a).reduced.loop c.recordTrace
      (roundBudget (ofSource c a).reduced.nrows) 0 (a.prepare c.objective c.recordTrace) =
      ((ofSource c a).descent.ending.result (ofSource c a).descent.rounds.length).map fun μ =>
        (μ, (ofSource c a).descent.rounds.length, (ofSource c a).trace) := by
    rw [Grid.loop_eq_descend, trace_eq_append, Nat.zero_add]
    rfl
  have hexecute : a.execute c.objective c.recordTrace =
      match (ofSource c a).reduced.loop c.recordTrace
        (roundBudget (ofSource c a).reduced.nrows) 0 (a.prepare c.objective c.recordTrace) with
      | .error defect => .error (.invariantViolated defect)
      | .ok (μ, adjustments, trace) => .ok (a.finish c.objective μ adjustments trace) := rfl
  rw [hexecute, hloop, outcome, Descent.outcome]
  cases (ofSource c a).descent.ending <;> rfl

end Run

end LinearAssignment
