import LinearAssignment.Failure
import LinearAssignment.Text.Ascii
import LinearAssignment.Text.Blank

/-! # Configuration: what a solver is asked to do

    The objective decides the answer.  The dimension limit only refuses inputs, and the
    trace switch only decides how much of a run is kept for display. -/

namespace LinearAssignment

/-- Whether the total of the chosen cells is to be small or large. -/
inductive Objective where
  | minimize
  | maximize
  deriving DecidableEq, Repr

namespace Objective

/-- The name of the objective. -/
def name : Objective → String
  | .minimize => "minimize"
  | .maximize => "maximize"

/-- The objective that a word stands for, blanks around it and the case of its letters
    aside. -/
def ofWord (word : String) : Except ConfigFault Objective :=
  match Text.lowerAscii (Text.trim word) with
  | "min" | "minimize" | "minimise" => .ok .minimize
  | "max" | "maximize" | "maximise" => .ok .maximize
  | other => .error (.unknownObjective other)

/-- The objective that a flag asks for. -/
def ofFlag (maximize : Bool) : Objective := if maximize then .maximize else .minimize

/-- The objective as a flag. -/
def isMaximize (o : Objective) : Bool := o == .maximize

@[simp] theorem isMaximize_ofFlag (flag : Bool) : (ofFlag flag).isMaximize = flag := by
  cases flag <;> rfl

@[simp] theorem ofFlag_isMaximize (o : Objective) : ofFlag o.isMaximize = o := by
  cases o <;> rfl

end Objective

/-- The settings of a solver. -/
structure Config where
  objective : Objective
  /-- Inputs whose larger dimension exceeds this are refused. -/
  dimensionLimit : Option Nat
  /-- Keep the working matrix after every stage; otherwise only the input is kept. -/
  recordTrace : Bool
  deriving DecidableEq, Repr

namespace Config

/-- Minimize, without a limit, and keep the trace. -/
def standard : Config := ⟨.minimize, none, true⟩

/-- The standard settings with the objective that a flag asks for. -/
def ofFlag (maximize : Bool) : Config := { standard with objective := .ofFlag maximize }

/-- The same settings with a dimension limit. -/
def withDimensionLimit (c : Config) (limit : Nat) : Config :=
  { c with dimensionLimit := some limit }

/-- The same settings with the trace switched on or off. -/
def withRecordTrace (c : Config) (recordTrace : Bool) : Config :=
  { c with recordTrace := recordTrace }

/-- What is wrong with the settings. -/
def fault? (c : Config) : Option ConfigFault :=
  if c.dimensionLimit = some 0 then some .zeroDimensionLimit else none

/-- The settings themselves, refused when they mean nothing. -/
def validated (c : Config) : Except ConfigFault Config :=
  match c.fault? with
  | some fault => .error fault
  | none => .ok c

@[simp] theorem fault?_ofFlag (maximize : Bool) : (ofFlag maximize).fault? = none := rfl

end Config

end LinearAssignment
