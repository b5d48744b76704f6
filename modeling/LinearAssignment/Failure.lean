import LinearAssignment.Defect

/-! # Failures: why there is no answer

    Every reason for which the library refuses an input or gives up on it.  The causes are
    data; their wording is in one place, `Failure.message`. -/

namespace LinearAssignment

/-- Untyped input that does not have the form of a table. -/
inductive Malformation where
  /-- The input is not a list of rows. -/
  | notRows
  /-- This entry of the list of rows is not a row. -/
  | notRow (row : Nat)
  deriving DecidableEq, Repr

/-- The malformation in words. -/
def Malformation.message : Malformation → String
  | .notRows => "expected an array of rows"
  | .notRow row => s!"row {row} is not an array"

/-- A setting that means nothing. -/
inductive ConfigFault where
  /-- No matrix has a dimension below one. -/
  | zeroDimensionLimit
  /-- The word names no objective. -/
  | unknownObjective (word : String)
  deriving DecidableEq, Repr

/-- The fault in words. -/
def ConfigFault.message : ConfigFault → String
  | .zeroDimensionLimit => "max_dimension must be at least 1"
  | .unknownObjective word => s!"unknown objective: {word}"

/-- A reason for having no answer. -/
inductive Failure (K : Type) where
  /-- There is no row, or the first row is empty. -/
  | emptyMatrix
  /-- A row differs in length from the first one. -/
  | raggedMatrix (row expected found : Nat)
  /-- A cell holds no finite number; `entry` is its written form. -/
  | nonNumericEntry (row col : Nat) (entry : String)
  /-- The smallest and the largest value lie so far apart, or so far from zero, that solving
      could overflow; no bounds when there is no number at all. -/
  | valueRangeOverflow (bounds : Option (K × K))
  /-- Untyped input does not have the form of a table. -/
  | malformedInput (cause : Malformation)
  /-- The larger dimension exceeds the limit that was set. -/
  | matrixTooLarge (dimension limit : Nat)
  /-- A setting means nothing. -/
  | invalidConfig (cause : ConfigFault)
  /-- A text cannot be read. -/
  | unreadableText
  /-- The adjustment loop broke one of its invariants. -/
  | invariantViolated (defect : Defect K)
  deriving DecidableEq

namespace Failure

variable {K : Type} [Scalar K]

/-- The failure in words.  What the reader of texts says about one that it refuses has no wording
    here; it is handed in as `account`, and no other failure asks for it. -/
def message (failure : Failure K) (account : String := "") : String :=
  match failure with
  | .emptyMatrix => "Empty matrix: at least one row and one column are required"
  | .raggedMatrix row expected found =>
    s!"Ragged matrix: row {row} has {found} columns, expected {expected}"
  | .nonNumericEntry row col entry => s!"Non-numeric entry at row {row}, column {col}: {entry}"
  | .valueRangeOverflow bounds =>
    let least := Scalar.leastText (bounds.map (·.1))
    let greatest := Scalar.greatestText (bounds.map (·.2))
    s!"Value range overflow: values from {least} to {greatest} cannot be reduced without overflow"
  | .malformedInput cause => s!"Malformed input: {cause.message}"
  | .matrixTooLarge dimension limit =>
    s!"Matrix too large: dimension {dimension} exceeds limit {limit}"
  | .invalidConfig cause => s!"Invalid configuration: {cause.message}"
  | .unreadableText => s!"JSON error: {account}"
  | .invariantViolated defect => s!"Internal invariant violated: {defect.message}"

/-- The input is to blame, and not the solver. -/
def isInputError : Failure K → Bool
  | .invariantViolated _ => false
  | _ => true

end Failure

end LinearAssignment
