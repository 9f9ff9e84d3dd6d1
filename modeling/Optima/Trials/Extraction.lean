import Optima.Problem

/-!
From a point to a solution: every component of a problem is evaluated there.

* `isActive`: a bound is active where the value is close to it.
* `extract`: the rows of all components, in the order of the problem.
-/

namespace Optima

variable {α : Type} [Scalar α] [Printable α]

def activeTolerance : α := Scalar.ofDecimal 1 (-5)

def isActive (value bound : α) : Bool := decide (Scalar.abs (bound - value) < activeTolerance)

namespace Component

/-- The row of a component with bounds. -/
def row (c : Component α) (value : α) : Row α :=
  ⟨c.name, c.group, some value, isActive value c.lower, isActive value c.upper⟩

/-- The row of an objective, on which no bound is ever active. -/
def objectiveRow (c : Component α) (value : α) : Row α :=
  ⟨c.name, c.group, some value, false, false⟩

end Component

namespace Problem

/-- The solution that a point stands for. -/
def extract (p : Problem α) (point : List α) : Except (Failure α) (Solution α) := do
  let constraints ← p.constraints.mapM fun c => do
    return c.row (← evaluateAt p.symbols point c)
  let objectives ← p.objectives.mapM fun c => do
    return c.objectiveRow (← evaluateAt p.symbols point c)
  return ⟨List.zipWith Component.row p.decisions point, constraints, objectives⟩

end Problem

end Optima
