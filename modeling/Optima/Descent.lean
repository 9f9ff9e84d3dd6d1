import Optima.Box

/-!
Projected gradient descent in a box.

From an iterate a step is tried against the gradient, cut back to the box, and halved until it
lowers the value enough. The first trial length comes from the last two iterates or is one.

* `backtrack`: the first of the halved steps that lowers the value enough.
* `advance`: one iterate from another.
* `minimize`: iterates until the point is stationary, nothing more is gained, a number is no longer
  finite, or the iterations are used up.
* `backtrack_eq_none_iff`: a step is refused only if all its halvings are.
-/

namespace Optima

/-- A function on points that can be differentiated. -/
structure Smooth (α : Type) where
  value : List α → α
  valueAndGradient : List α → α × List α

namespace Descent

/-- How long the first trial step of an iteration is. -/
inductive StepRule
  /-- The quotient that fits the curvature between the last two iterates. -/
  | barzilaiBorwein
  /-- One. -/
  | fixed
  deriving DecidableEq, Repr

namespace StepRule

def name : StepRule → String
  | barzilaiBorwein => "barzilai_borwein"
  | fixed => "fixed"

def ofName? : String → Option StepRule
  | "barzilai_borwein" => some barzilaiBorwein
  | "fixed" => some fixed
  | _ => none

theorem ofName?_name (r : StepRule) : ofName? r.name = some r := by cases r <;> rfl

end StepRule

inductive Termination
  | converged
  | iterationLimit
  /-- No halving of the step lowered the value. -/
  | stalled
  | nonFinite
  deriving DecidableEq, Repr

def Termination.name : Termination → String
  | converged => "Converged"
  | iterationLimit => "IterationLimit"
  | stalled => "Stalled"
  | nonFinite => "NonFinite"

structure Settings (α : Type) where
  maxIterations : Nat
  tolerance : α
  rule : StepRule
  deriving Repr

structure Outcome (α : Type) where
  point : List α
  stationarity : α
  iterations : Nat
  termination : Termination
  deriving Repr

/-- A point with its value and gradient, and the length of the next trial step. -/
structure Iterate (α : Type) where
  point : List α
  value : α
  gradient : List α
  step : α
  deriving Repr

variable {α : Type} [Scalar α]

/-! ## Constants -/

/-- The part of the predicted decrease that a step has to achieve. -/
def armijo : α := Scalar.ofDecimal 1 (-4)

/-- A relative allowance for steps whose decrease is below the rounding of the value. -/
def roundoff : α := Scalar.ofDecimal 1 (-14)

def shortestStep : α := Scalar.ofDecimal 1 (-12)

def longestStep : α := Scalar.ofDecimal 1 12

/-- How many steps are tried, each half as long as the one before. -/
def maxTrials : Nat := 60

/-! ## One iteration -/

def allFinite (value : α) (gradient : List α) : Bool :=
  Scalar.isFinite value && gradient.all Scalar.isFinite

/-- The point `trial` lowers the value enough for a step from the iterate. -/
def accepts (f : Smooth α) (it : Iterate α) (trial : List α) : Bool :=
  let value := f.value trial
  Scalar.isFinite value &&
    decide (value ≤ it.value + armijo * dot it.gradient (displacement trial it.point) +
      roundoff * Scalar.abs it.value)

/-- The first accepted point among `count` steps, the first of length `step` and each half as long
as the one before, with the length of its step. -/
def backtrack (f : Smooth α) (box : Box α) (it : Iterate α) : (count : Nat) → (step : α) →
    Option (List α × α)
  | 0, _ => none
  | count + 1, step =>
    let trial := box.move it.point it.gradient step
    if accepts f it trial then some (trial, step)
    else backtrack f box it count (step * Scalar.half)

/-- The length of the next trial step, after a step of length `step` from one iterate to a point
with a gradient. Where the curvature is not positive the step is doubled. -/
def nextStep (rule : StepRule) (it : Iterate α) (step : α) (point gradient : List α) : α :=
  match rule with
  | .fixed => 1
  | .barzilaiBorwein =>
    let s := displacement point it.point
    let curvature := dot s (displacement gradient it.gradient)
    if 0 < curvature then Scalar.clamp shortestStep longestStep (dot s s / curvature)
    else Scalar.min (step * Scalar.two) longestStep

/-- What an iteration comes to. -/
inductive Advance (α : Type)
  | next (it : Iterate α)
  | stalled
  | nonFinite (point : List α)

def advance (f : Smooth α) (box : Box α) (rule : StepRule) (it : Iterate α) : Advance α :=
  match backtrack f box it maxTrials it.step with
  | none => .stalled
  | some (trial, step) =>
    let (value, gradient) := f.valueAndGradient trial
    if allFinite value gradient then
      .next ⟨trial, value, gradient, nextStep rule it step trial gradient⟩
    else .nonFinite trial

/-! ## The search -/

/-- Iterates at most `remaining` times more, after `done` iterations. -/
def run (f : Smooth α) (box : Box α) (settings : Settings α) : (remaining done : Nat) →
    Iterate α → Outcome α
  | 0, done, it =>
    let stationarity := box.stationarity it.point it.gradient
    ⟨it.point, stationarity, done,
      if stationarity ≤ settings.tolerance then .converged else .iterationLimit⟩
  | remaining + 1, done, it =>
    let stationarity := box.stationarity it.point it.gradient
    if stationarity ≤ settings.tolerance then ⟨it.point, stationarity, done, .converged⟩
    else
      match advance f box settings.rule it with
      | .stalled => ⟨it.point, stationarity, done, .stalled⟩
      | .nonFinite point => ⟨point, Scalar.nan, done + 1, .nonFinite⟩
      | .next it' => run f box settings remaining (done + 1) it'

/-- The first trial step: at most one, and no coordinate moves further than one. -/
def firstStep (gradient : List α) : α :=
  1 / (gradient.map Scalar.abs).foldl Scalar.max 1

/-- Minimizes a function in a box, from the point of the box nearest to `start`. -/
def minimize (f : Smooth α) (box : Box α) (start : List α) (settings : Settings α) : Outcome α :=
  let point := box.project start
  let (value, gradient) := f.valueAndGradient point
  if allFinite value gradient then
    run f box settings settings.maxIterations 0 ⟨point, value, gradient, firstStep gradient⟩
  else ⟨point, Scalar.nan, 0, .nonFinite⟩

/-- The length of the step after some halvings. -/
def halved (step : α) : Nat → α
  | 0 => step
  | k + 1 => halved (step * Scalar.half) k

theorem backtrack_eq_none_iff (f : Smooth α) (box : Box α) (it : Iterate α) (count : Nat)
    (step : α) :
    backtrack f box it count step = none ↔
      ∀ k < count, accepts f it (box.move it.point it.gradient (halved step k)) = false := by
  induction count generalizing step with
  | zero => simp [backtrack]
  | succ count ih =>
    simp only [backtrack]
    split
    · next h =>
      simp only [reduceCtorEq, false_iff]
      intro hall
      have h0 := hall 0 (by omega)
      rw [halved] at h0
      rw [h] at h0
      exact Bool.noConfusion h0
    · next h =>
      rw [ih]
      constructor
      · intro hall k hk
        cases k with
        | zero => simpa [halved] using h
        | succ k => exact hall k (by omega)
      · intro hall k hk
        exact hall (k + 1) (by omega)

end Descent

end Optima
