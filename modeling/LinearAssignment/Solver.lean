import LinearAssignment.Json.Table
import LinearAssignment.Run

/-! # Solvers

    A solver is a choice of settings; it keeps nothing from one input to the next.  Input
    comes as a cost matrix, as a table of numbers or as untyped data, and the last two are
    validated first.  The answer to an input is an outcome together with the reports made on
    the way. -/

namespace LinearAssignment

/-- Settings that mean something. -/
structure Solver where
  config : Config
  valid : config.fault? = none

/-- An outcome together with the reports made on the way. -/
structure Reply (K : Type) [Scalar K] where
  outcome : Except (Failure K) (Solution K)
  log : List LogEntry

namespace Solver

variable {K : Type} [Scalar K]

/-- The solver with the given settings. -/
def ofConfig (config : Config) : Except ConfigFault Solver :=
  match h : config.fault? with
  | some fault => .error fault
  | none => .ok ⟨config, h⟩

/-- The solver with standard settings for the objective that a flag asks for. -/
def ofFlag (maximize : Bool) : Solver := ⟨.ofFlag maximize, Config.fault?_ofFlag maximize⟩

/-- The limit that a matrix exceeds, if there is one. -/
def exceededLimit? (s : Solver) (a : CostMatrix K) : Option Nat :=
  s.config.dimensionLimit.filter (· < a.dimension)

/-- Solve a cost matrix and report on the way. -/
def answer (s : Solver) (a : CostMatrix K) : Reply K :=
  match s.exceededLimit? a with
  | some limit => ⟨.error (.matrixTooLarge a.dimension limit), []⟩
  | none =>
    let run := Run.ofSource s.config a
    ⟨run.outcome, run.log⟩

/-- Solve what validation let through; a failed validation is the outcome, unreported. -/
def answerValidated (s : Solver) : Except (Failure K) (CostMatrix K) → Reply K
  | .error failure => ⟨.error failure, []⟩
  | .ok a => s.answer a

/-- Solve a cost matrix. -/
def solveMatrix (s : Solver) (a : CostMatrix K) : Except (Failure K) (Solution K) :=
  (s.answer a).outcome

/-- Solve a table of numbers. -/
def solve (s : Solver) (table : RawTable K) : Except (Failure K) (Solution K) :=
  (s.answerValidated (CostMatrix.ofRows table)).outcome

/-- Solve untyped input and report on the way. -/
def answerJson (s : Solver) (j : Json) : Reply Float := s.answerValidated (CostMatrix.ofJson j)

/-- Solve untyped input. -/
def solveJson (s : Solver) (j : Json) : Except (Failure Float) (Solution Float) :=
  (s.answerJson j).outcome

end Solver

/-- Solve a table of numbers with standard settings. -/
def solve {K : Type} [Scalar K] (table : RawTable K) (maximize : Bool) :
    Except (Failure K) (Solution K) :=
  (Solver.ofFlag maximize).solve table

/-- Solve untyped input with standard settings. -/
def solveJson (j : Json) (maximize : Bool) : Except (Failure Float) (Solution Float) :=
  (Solver.ofFlag maximize).solveJson j

end LinearAssignment
