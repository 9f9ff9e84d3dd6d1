import Optima.Lagrangian.Settings
import Optima.Lagrangian.Subproblem

/-!
Measures of convergence: by how much the constraints are violated, how far the point is from
stationary, and how far the multipliers are from complementary to the slack.

* `Measures.ofValues`: the measures of a point after an update of the multipliers.
* `Measures.within_iff`: what it means that they are within tolerances.
-/

namespace Optima.Lagrangian

structure Measures (α : Type) where
  violation : α
  stationarity : α
  complementarity : α
  deriving Repr

variable {α : Type} [Scalar α]

namespace Measures

/-- The measures before the first round. -/
def unconverged : Measures α := ⟨Scalar.infinity, Scalar.infinity, Scalar.infinity⟩

/-- The largest violation so far and that of one more constraint with value `c`. -/
def addViolation (violation : α) (bounds : Bounds α) (c : α) : α :=
  Scalar.max (Scalar.max violation (c - bounds.upper)) (bounds.lower - c)

/-- How far the upper side of a constraint with value `c` is from being slack or without force. -/
def upperComplementarity (term : Term α) (c : α) : α :=
  Scalar.min term.multiplier.upper (Scalar.max (term.bounds.upper - c) 0)

/-- How far the lower side of a constraint with value `c` is from being slack or without force. -/
def lowerComplementarity (term : Term α) (c : α) : α :=
  Scalar.min term.multiplier.lower (Scalar.max (c - term.bounds.lower) 0)

/-- The largest complementarity so far and that of the finite sides of one more constraint. -/
def addComplementarity (complementarity : α) (term : Term α) (c : α) : α :=
  let upper :=
    if Scalar.isFinite term.bounds.upper then
      Scalar.max complementarity (upperComplementarity term c)
    else complementarity
  if Scalar.isFinite term.bounds.lower then Scalar.max upper (lowerComplementarity term c)
  else upper

/-- The measures of constraint values `g` after an update of the multipliers. -/
def ofValues (terms : List (Term α)) (g : List α) (stationarity : α) : Measures α where
  violation := (terms.zip g).foldl (fun v (term, c) => addViolation v term.bounds c) 0
  stationarity := stationarity
  complementarity := (terms.zip g).foldl (fun v (term, c) => addComplementarity v term c) 0

def within (m : Measures α) (tolerance violationTolerance : α) : Bool :=
  decide (m.violation ≤ violationTolerance) && decide (m.stationarity ≤ tolerance) &&
    decide (m.complementarity ≤ tolerance)

theorem within_iff {m : Measures α} {tolerance violationTolerance : α} :
    m.within tolerance violationTolerance = true ↔
      m.violation ≤ violationTolerance ∧ m.stationarity ≤ tolerance ∧
        m.complementarity ≤ tolerance := by
  simp [within, and_assoc]

def withinStrict (m : Measures α) (s : Settings α) : Bool :=
  m.within s.tolerance s.violationTolerance

def withinAcceptable (m : Measures α) (s : Settings α) : Bool :=
  m.within s.acceptableTolerance s.acceptableViolationTolerance

end Measures

end Optima.Lagrangian
