import Optima.Scalar

/-!
Boxes: points whose coordinates each lie between two bounds, which may be infinite.

* `project`: the nearest point of the box, coordinate by coordinate.
* `move`: a step against a direction, cut back to the box.
* `stationarity`: how far a unit step against the gradient gets; zero where no coordinate can move.
* `length_project`, `length_move`: points keep their dimension.
-/

namespace Optima

/-- Coordinate `i` lies between `lower[i]` and `upper[i]`. -/
structure Box (α : Type) where
  lower : List α
  upper : List α
  deriving Repr

variable {α : Type} [Scalar α]

def dot (a b : List α) : α := Scalar.sum (List.zipWith (· * ·) a b)

/-- The difference of two points. -/
def displacement (a b : List α) : List α := List.zipWith (· - ·) a b

namespace Box

/-- Cuts each coordinate back to its bounds; a coordinate without bounds stays. -/
def projectBetween : List α → List α → List α → List α
  | l :: ls, u :: us, x :: xs => Scalar.min (Scalar.max x l) u :: projectBetween ls us xs
  | _, _, xs => xs

def project (box : Box α) (point : List α) : List α := projectBetween box.lower box.upper point

/-- The point reached by a step of length `step` against `direction`, cut back to the box. -/
def move (box : Box α) (point direction : List α) (step : α) : List α :=
  box.project (List.zipWith (fun x d => x - step * d) point direction)

/-- The largest coordinate of the way that a unit step against the gradient gets in the box. -/
def stationarity (box : Box α) (point gradient : List α) : α :=
  ((displacement (box.move point gradient 1) point).map Scalar.abs).foldl Scalar.max 0

theorem length_projectBetween (ls us xs : List α) :
    (projectBetween ls us xs).length = xs.length := by
  fun_induction projectBetween ls us xs with
  | case1 l ls u us x xs ih => simp [ih]
  | case2 => rfl

theorem length_project (box : Box α) (point : List α) :
    (box.project point).length = point.length := length_projectBetween box.lower box.upper point

theorem length_move (box : Box α) (point direction : List α) (step : α) :
    (box.move point direction step).length = min point.length direction.length := by
  simp [move, length_project]

end Box

end Optima
