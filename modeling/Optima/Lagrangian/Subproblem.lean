import Optima.Descent
import Optima.Lagrangian.Model

/-!
The augmented Lagrangian with its multipliers and penalty held fixed: what one round minimizes.

Each finite side of a constraint has a multiplier. A side contributes through its shifted violation,
the violation plus the multiplier over the penalty, where that is positive.

* `Subproblem.value`: the objective plus the penalty terms.
* `Subproblem.weights`: the weights with which the constraints enter the gradient.
* `Subproblem.smooth`: both together.
-/

namespace Optima.Lagrangian

/-- The bounds of one constraint. -/
structure Bounds (α : Type) where
  lower : α
  upper : α
  deriving Repr

/-- The multipliers of the two sides of one constraint. -/
structure Multiplier (α : Type) where
  lower : α
  upper : α
  deriving Repr

variable {α : Type} [Scalar α]

/-- The multiplier of the constraint as a whole, positive if its upper side is active. -/
def Multiplier.net (mu : Multiplier α) : α := mu.upper - mu.lower

/-- The bounds of all constraints. -/
def boundsOf (box : Box α) : List (Bounds α) := List.zipWith Bounds.mk box.lower box.upper

/-- The term of one constraint: what is held fixed of it in a subproblem. -/
structure Term (α : Type) where
  bounds : Bounds α
  multiplier : Multiplier α
  deriving Repr

structure Subproblem (α : Type) where
  model : Model α
  terms : List (Term α)
  penalty : α
  deriving Repr

/-- The shifted violation of the lower side of a constraint with value `c`. -/
def Term.lowerShift (term : Term α) (penalty c : α) : α :=
  if Scalar.isFinite term.bounds.lower then
    Scalar.max (term.bounds.lower - c + term.multiplier.lower / penalty) 0
  else 0

/-- The shifted violation of the upper side of a constraint with value `c`. -/
def Term.upperShift (term : Term α) (penalty c : α) : α :=
  if Scalar.isFinite term.bounds.upper then
    Scalar.max (c - term.bounds.upper + term.multiplier.upper / penalty) 0
  else 0

/-- What a constraint with value `c` adds to the objective. -/
def Term.value (term : Term α) (penalty c : α) : α :=
  let upper := term.upperShift penalty c
  let lower := term.lowerShift penalty c
  let mu := term.multiplier
  Scalar.half * penalty * (upper * upper + lower * lower) -
    (Scalar.square mu.upper + Scalar.square mu.lower) / (Scalar.two * penalty)

/-- The weight of the gradient of a constraint with value `c`. -/
def Term.weight (term : Term α) (penalty c : α) : α :=
  penalty * (term.upperShift penalty c - term.lowerShift penalty c)

namespace Subproblem

/-- The objective plus the terms of the constraints, whose values are `g`. -/
def valueWith (sub : Subproblem α) (point g : List α) : α :=
  valueAt sub.model.objective point +
    Scalar.sum (List.zipWith (fun term c => term.value sub.penalty c) sub.terms g)

def value (sub : Subproblem α) (point : List α) : α :=
  sub.valueWith point (sub.model.constraintValues point)

def weights (sub : Subproblem α) (g : List α) : List α :=
  List.zipWith (fun term c => term.weight sub.penalty c) sub.terms g

def valueAndGradient (sub : Subproblem α) (point : List α) : α × List α :=
  let g := sub.model.constraintValues point
  (sub.valueWith point g, sub.model.lagrangianGradient point (sub.weights g))

def smooth (sub : Subproblem α) : Smooth α := ⟨sub.value, sub.valueAndGradient⟩

theorem valueAndGradient_fst (sub : Subproblem α) (point : List α) :
    (sub.valueAndGradient point).1 = sub.value point := rfl

end Subproblem

end Optima.Lagrangian
