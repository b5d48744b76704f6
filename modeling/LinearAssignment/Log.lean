/-! # Log entries

    What the solver reports about its own progress, beside its answer.  An entry has a level
    and a message; entries are values, collected in order. -/

namespace LinearAssignment

/-- How much an entry matters. -/
inductive LogLevel where
  /-- A stage was reached. -/
  | debug
  /-- Detail within a stage. -/
  | trace
  /-- Something that should not happen did. -/
  | warn
  deriving DecidableEq, Repr

/-- The word that marks the level in a written entry. -/
def LogLevel.word : LogLevel → String
  | .debug => "DEBUG"
  | .trace => "TRACE"
  | .warn => "WARN"

/-- One report. -/
structure LogEntry where
  level : LogLevel
  message : String
  deriving DecidableEq, Repr

namespace LogEntry

/-- The written form: the level, a space, the message. -/
def line (e : LogEntry) : String := s!"{e.level.word} {e.message}"

end LogEntry

/-- A list of positions as it stands in a message. -/
def listing (positions : List Nat) : String :=
  "[" ++ ", ".intercalate (positions.map toString) ++ "]"

end LinearAssignment
