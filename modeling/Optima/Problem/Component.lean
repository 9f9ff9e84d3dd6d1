import Optima.Expr.Printer
import Optima.Failure
import Optima.Solution

/-!
Components: the decision variables, constraints and objectives of a problem.

* `Component.create`: bounds have to be defined and in order; equal bounds pin a component down.
* `create_eq_ok_iff`: what it takes to create a component.
-/

namespace Optima

namespace Component

inductive Kind
  /-- Whether a variable is discrete is recorded, and continuous engines do not enforce it. -/
  | decision (discrete : Bool)
  | constraint
  /-- All objectives of a problem are added up and minimized. -/
  | objective
  deriving DecidableEq, Repr

end Component

structure Component (α : Type) where
  kind : Component.Kind
  expression : Expr α
  lower : α
  upper : α
  name : Option String
  group : Option String
  deriving Repr

namespace Component

variable {α : Type} [Scalar α]

/-- Both bounds are defined and the upper one is not below the lower one. -/
def ordered (lower upper : α) : Bool :=
  !(Scalar.isNaN lower || Scalar.isNaN upper || decide (upper < lower))

/-- A component with bounds. Without a name, a complaint names its expression. -/
def create [Printable α] (kind : Kind) (expression : Expr α) (lower upper : α)
    (name group : Option String) : Except (Failure α) (Component α) :=
  if ordered lower upper then .ok ⟨kind, expression, lower, upper, name, group⟩
  else .error (.bounds (name.getD expression.print) lower upper)

/-- Objectives have no bounds. -/
def objective (expression : Expr α) (name group : Option String) : Component α :=
  ⟨.objective, expression, -Scalar.infinity, Scalar.infinity, name, group⟩

def isDiscrete (c : Component α) : Bool := c.kind = .decision true

/-- The symbol of a decision variable. -/
def symbol? (c : Component α) : Option Symbol :=
  match c.kind, c.expression with
  | .decision _, .sym s => some s
  | _, _ => none

/-- The row of the component before it has been evaluated. -/
def emptyRow (c : Component α) : Row α := ⟨c.name, c.group, none, false, false⟩

def describe [Printable α] (c : Component α) : String :=
  let name := c.name.getD "unnamed"
  let bounded := name ++ ": " ++ Printable.plain c.lower ++ " <= " ++ c.expression.print ++
    " <= " ++ Printable.plain c.upper
  match c.kind with
  | .objective => name ++ ": " ++ c.expression.print
  | .decision true => bounded ++ " (discrete)"
  | .decision false => bounded
  | .constraint => bounded

theorem create_eq_ok_iff [Printable α] {kind : Kind} {e : Expr α} {lower upper : α}
    {name group : Option String} {c : Component α} :
    create kind e lower upper name group = .ok c ↔
      ordered lower upper = true ∧ c = ⟨kind, e, lower, upper, name, group⟩ := by
  unfold create
  by_cases h : ordered lower upper = true
  · simp only [h, if_true, Except.ok.injEq, true_and]
    exact eq_comm
  · simp [h]

end Component

end Optima
