import Optima.Box
import Optima.Expr.Compiled
import Optima.Expr.Derivative
import Optima.Program

/-!
Compiled programs: the objective, the constraints and their derivatives as functions of the
variables.

* `Model.compile`: differentiates and compiles once.
* `Model.lagrangianGradient`: the gradient of the objective plus weighted gradients of the
  constraints, by means of the derivatives that can be nonzero.
* `length_lagrangianGradient`: it has one entry for each derivative of the objective.
-/

namespace Optima.Lagrangian

/-- The derivatives of one constraint, each with the position of its variable. A variable that the
constraint does not mention is left out. -/
abbrev JacobianRow (α : Type) : Type := List (Nat × Function α)

structure Model (α : Type) where
  size : Nat
  objective : Function α
  gradient : List (Function α)
  constraints : List (Function α)
  jacobian : List (JacobianRow α)
  deriving Repr

variable {α : Type} [Scalar α]

/-- The value of a function at a point; undefined if the point has the wrong length. -/
def valueAt (f : Function α) (point : List α) : α :=
  match f.call point with
  | .ok v => v
  | .error _ => Scalar.nan

def compileRow (decisions : List Symbol) (g : Expr α) : Except EvalError (JacobianRow α) :=
  (decisions.zipIdx.filter fun (s, _) => g.dependsOn s).mapM fun (s, i) => do
    return (i, ← Function.compile decisions (g.diff s))

namespace Model

def compile (p : Program α) : Except EvalError (Model α) := do
  let objective ← Function.compile p.decisions p.objective
  let gradient ← (p.objective.gradient p.decisions).mapM (Function.compile p.decisions)
  let constraints ← p.constraints.mapM (Function.compile p.decisions)
  let jacobian ← p.constraints.mapM (compileRow p.decisions)
  return ⟨p.decisions.length, objective, gradient, constraints, jacobian⟩

def constraintCount (m : Model α) : Nat := m.constraints.length

def constraintValues (m : Model α) (point : List α) : List α :=
  m.constraints.map fun g => valueAt g point

/-- Adds `weight` times the derivatives of a row to a gradient. -/
def addRow (point : List α) (weight : α) (gradient : List α) (row : JacobianRow α) : List α :=
  row.foldl (fun gradient (i, d) => gradient.modify i (· + weight * valueAt d point)) gradient

/-- The gradient of the objective plus that of each constraint times its weight; constraints of
weight zero are skipped. -/
def lagrangianGradient (m : Model α) (point weights : List α) : List α :=
  (m.jacobian.zip weights).foldl
    (fun gradient (row, weight) =>
      if weight == 0 then gradient else addRow point weight gradient row)
    (m.gradient.map fun d => valueAt d point)

theorem length_addRow (point : List α) (weight : α) (gradient : List α) (row : JacobianRow α) :
    (addRow point weight gradient row).length = gradient.length := by
  induction row generalizing gradient with
  | nil => rfl
  | cons entry row ih =>
    simp only [addRow, List.foldl_cons]
    exact (ih _).trans (List.length_modify ..)

theorem length_lagrangianGradient (m : Model α) (point weights : List α) :
    (m.lagrangianGradient point weights).length = m.gradient.length := by
  have h (rows : List (JacobianRow α × α)) (gradient : List α) :
      (rows.foldl (fun gradient (row, weight) =>
        if weight == 0 then gradient else addRow point weight gradient row) gradient).length =
        gradient.length := by
    induction rows generalizing gradient with
    | nil => rfl
    | cons entry rows ih =>
      obtain ⟨row, weight⟩ := entry
      rw [List.foldl_cons, ih]
      dsimp only
      split
      · rfl
      · exact length_addRow point _ gradient _
  simp [lagrangianGradient, h]

end Model

end Optima.Lagrangian
