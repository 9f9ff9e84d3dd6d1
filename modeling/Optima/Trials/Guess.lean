import Optima.Box
import Optima.Output

/-!
Guesses: the points that trials start from.

* `sample`: a first guess inside the bounds, one draw from `[0, 1]` for each variable.
* `following`: the guess after a trial, its point if it succeeded and its bound multipliers if not.
* `length_following_of_failure`: after a failure the guess has the dimension of the problem.
-/

namespace Optima.Guess

variable {α : Type} [Scalar α]

/-- What stands for an infinite bound when a guess is drawn. -/
def samplingLimit : α := Scalar.ofDecimal 1 10

def finiteBound (bound : α) : α :=
  if bound == Scalar.infinity then samplingLimit
  else if bound == -Scalar.infinity then -samplingLimit
  else bound

/-- The point at `draw` of the way between two bounds, cut back to them. -/
def between (lower upper draw : α) : α :=
  let v := finiteBound lower * (1 - draw) + finiteBound upper * draw
  let v := if Scalar.isFinite v then v else 0
  Scalar.min (Scalar.max v lower) upper

def sample (box : Box α) (draws : Nat → α) : List α :=
  (box.lower.zip box.upper).zipIdx.map fun ((lower, upper), i) => between lower upper (draws i)

/-- The first `n` entries of a list, with zeros behind it if there are fewer. -/
def fit (n : Nat) (values : List α) : List α := (List.range n).map fun i => values.getD i 0

/-- The guess for the trial after one with the given output. -/
def following (n : Nat) (out : Output α) : List α :=
  if out.success then out.point else fit n out.boundMultipliers

theorem length_fit (n : Nat) (values : List α) : (fit n values).length = n := by
  simp [fit]

theorem length_following_of_failure (n : Nat) (out : Output α) (h : out.success = false) :
    (following n out).length = n := by
  simp [following, h, length_fit]

end Optima.Guess
