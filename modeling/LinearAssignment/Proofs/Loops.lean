import Mathlib.Data.PFun

/-! # Loops without a bound

    A loop repeats its body, which hands back the state to go on with or the result to stop
    with.  How often it turns is not said beforehand, and a loop that never stops has no result:
    `loop body s` is a partial value, and `loop body s = .some b` says that the loop stops, with
    result `b`. -/

namespace LinearAssignment

variable {σ β : Type} {body : σ → β ⊕ σ} {s s' : σ} {b : β}

/-- The result of repeating the body from the given state, undefined if that never stops. -/
def loop (body : σ → β ⊕ σ) : σ → Part β := PFun.fix fun s => .some (body s)

/-- A loop stops when its body does. -/
theorem loop_of_inl (h : body s = .inl b) : loop body s = .some b :=
  Part.eq_some_iff.mpr (PFun.fix_stop (by simp [h]))

/-- Otherwise it goes on from the next state. -/
theorem loop_of_inr (h : body s = .inr s') : loop body s = loop body s' :=
  PFun.fix_fwd_eq (by simp [h])

end LinearAssignment
