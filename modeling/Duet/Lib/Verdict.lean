import Mathlib.Tactic.Common

/-!
# Verdicts of access rules

A rule evaluates to true or false, or its evaluation fails, as when it reads a field of a missing
document. A conjunction is decided by a false conjunct and a disjunction by a true disjunct, also
next to one whose evaluation fails; access is granted by true alone.

`holds_and` and `holds_or` reduce a rule to its atoms.
-/

namespace Lib

/-- The outcome of evaluating a rule, `none` when the evaluation fails. -/
abbrev Verdict := Option Bool

namespace Verdict

/-- The rule grants access. -/
def Holds (v : Verdict) : Prop := v = some true

instance (v : Verdict) : Decidable v.Holds := inferInstanceAs (Decidable (v = some true))

/-- `a && b`. -/
def and : Verdict → Verdict → Verdict
  | some false, _ => some false
  | _, some false => some false
  | some true, some true => some true
  | _, _ => none

/-- `a || b`. -/
def or : Verdict → Verdict → Verdict
  | some true, _ => some true
  | _, some true => some true
  | some false, some false => some false
  | _, _ => none

/-- `a == b`, for expressions whose evaluation may fail. -/
def eq {α : Type} [DecidableEq α] (a b : Option α) : Verdict :=
  match a, b with
  | some a, some b => some (decide (a = b))
  | _, _ => none

variable {v w : Verdict}

@[simp] theorem holds_some {b : Bool} : Holds (some b) ↔ b = true := by simp [Holds]
@[simp] theorem not_holds_none : ¬Holds none := by simp [Holds]

@[simp] theorem holds_and : (v.and w).Holds ↔ v.Holds ∧ w.Holds := by
  rcases v with _ | _ | _ <;> rcases w with _ | _ | _ <;> simp [and, Holds]

@[simp] theorem holds_or : (v.or w).Holds ↔ v.Holds ∨ w.Holds := by
  rcases v with _ | _ | _ <;> rcases w with _ | _ | _ <;> simp [or, Holds]

theorem holds_eq {α : Type} [DecidableEq α] {a b : Option α} :
    (eq a b).Holds ↔ ∃ x, a = some x ∧ b = some x := by
  rcases a with _ | a <;> rcases b with _ | b <;> simp [eq, eq_comm]

end Verdict

end Lib
