import Optima.Lagrangian.Report

/-!
The augmented Lagrangian method.

Each round minimizes a subproblem in the box of the variables, then moves every multiplier by the
violation of its side. The method ends when the measures are within the tolerances, when the
violation stays while the penalty is at its cap, when a number is not finite, or when the rounds are
used up. The penalty grows whenever the violation did not halve.

* `updateMultiplier`: the move of one pair of multipliers.
* `round`: one round, which ends the method or leads to another state.
* `solve`: the output for an invocation, and what there is to report of the way to it.
-/

namespace Optima.Lagrangian

variable {α : Type} [Scalar α]

/-! ## Rounds -/

/-- What one round hands to the next. -/
structure State (α : Type) where
  point : List α
  multipliers : List (Multiplier α)
  penalty : α
  /-- The measures of the round before. -/
  measures : Measures α
  deriving Repr

/-- Moves the multipliers of the finite sides of a constraint with value `c` by its violation; they
do not become negative. -/
def updateMultiplier (penalty : α) (term : Term α) (c : α) : Multiplier α where
  upper :=
    if Scalar.isFinite term.bounds.upper then
      Scalar.max (term.multiplier.upper + penalty * (c - term.bounds.upper)) 0
    else term.multiplier.upper
  lower :=
    if Scalar.isFinite term.bounds.lower then
      Scalar.max (term.multiplier.lower + penalty * (term.bounds.lower - c)) 0
    else term.multiplier.lower

/-- The violation did not halve. -/
def stalled (before now : Measures α) : Bool :=
  decide (Scalar.half * before.violation < now.violation)

/-- The penalty for the next round. -/
def nextPenalty (s : Settings α) (penalty : α) (before now : Measures α) : α :=
  if s.violationTolerance < now.violation ∧ stalled before now = true then
    Scalar.min (penalty * s.penaltyGrowth) s.maxPenalty
  else penalty

/-- How the method ends after a round, if it does. -/
def ending? (s : Settings α) (penalty : α) (before now : Measures α) : Option Status :=
  if now.withinStrict s then some .solved
  else if s.violationTolerance < now.violation ∧ stalled before now = true ∧
      s.maxPenalty ≤ penalty then
    some (if now.withinAcceptable s then .acceptable else .infeasible)
  else none

/-- The output at a point. The multipliers of the variable bounds balance the gradient of the
Lagrangian. -/
def output (model : Model α) (point g multipliers : List α) (status : Status) (iterations : Nat) :
    Output α where
  point := point
  boundMultipliers := (model.lagrangianGradient point multipliers).map fun v =>
    if Scalar.isFinite v then -v else 0
  constraintMultipliers := multipliers
  objective := valueAt model.objective point
  constraints := g
  success := status.isSuccess
  status := status
  iterations := iterations

def termsOf (bounds : List (Bounds α)) (multipliers : List (Multiplier α)) : List (Term α) :=
  List.zipWith Term.mk bounds multipliers

/-- The settings of the descent within a round. -/
def Settings.inner (s : Settings α) : Descent.Settings α :=
  ⟨s.innerMaxIterations, s.tolerance, s.rule⟩

/-- What a round comes to: the output, or the state for the next round. -/
inductive Progress (α : Type)
  | done (out : Output α)
  | next (state : State α)

/-- The round with number `number`. -/
def round (model : Model α) (s : Settings α) (box : Box α) (bounds : List (Bounds α))
    (number : Nat) (state : State α) : Progress α × List (Report α) :=
  let terms := termsOf bounds state.multipliers
  let outcome := Descent.minimize (Subproblem.mk model terms state.penalty).smooth box state.point
    s.inner
  let point := outcome.point
  let g := model.constraintValues point
  let report := Report.subproblem outcome.termination outcome.iterations outcome.stationarity
  if outcome.termination = .nonFinite ∨ g.all Scalar.isFinite = false then
    (.done (output model point g (List.replicate g.length 0) .invalidNumber number), [report])
  else
    let multipliers := List.zipWith (updateMultiplier state.penalty) terms g
    let measures := Measures.ofValues (termsOf bounds multipliers) g outcome.stationarity
    let reports :=
      [report, .round number (valueAt model.objective point) measures state.penalty]
    match ending? s state.penalty state.measures measures with
    | some status =>
      (.done (output model point g (multipliers.map Multiplier.net) status number), reports)
    | none =>
      (.next ⟨point, multipliers, nextPenalty s state.penalty state.measures measures, measures⟩,
        reports)

/-- The output once the rounds are used up, after `number` of them. -/
def exhausted (model : Model α) (s : Settings α) (number : Nat) (state : State α) : Output α :=
  output model state.point (model.constraintValues state.point)
    (state.multipliers.map Multiplier.net)
    (if state.measures.withinAcceptable s then .acceptable else .iterationLimit) number

/-- Goes through at most `remaining` more rounds, after `done` of them. -/
def rounds (model : Model α) (s : Settings α) (box : Box α) (bounds : List (Bounds α)) :
    (remaining done : Nat) → State α → Output α × List (Report α)
  | 0, done, state => (exhausted model s done state, [])
  | remaining + 1, done, state =>
    match round model s box bounds (done + 1) state with
    | (.done out, reports) => (out, reports)
    | (.next state, reports) =>
      let (out, later) := rounds model s box bounds remaining (done + 1) state
      (out, reports ++ later)

/-! ## The method -/

/-- The first point: the nearest one of the box to the guess, read as zero where it is not
finite. -/
def startPoint (box : Box α) (guess : List α) : List α :=
  box.project (guess.map fun v => if Scalar.isFinite v then v else 0)

def startState (s : Settings α) (inv : Invocation α) (constraintCount : Nat) : State α :=
  ⟨startPoint inv.decisions inv.guess, List.replicate constraintCount ⟨0, 0⟩, s.firstPenalty,
    .unconverged⟩

/-- Runs the method on an invocation, or rejects it. -/
def search (model : Model α) (s : Settings α) (inv : Invocation α) : Output α × List (Report α) :=
  match inv.fault? model.size model.constraintCount with
  | some fault =>
    (Output.rejected inv.guess model.size model.constraintCount, [.rejected fault])
  | none =>
    rounds model s inv.decisions (boundsOf inv.constraints) s.maxIterations 0
      (startState s inv model.constraintCount)

/-- The output for an invocation, with the reports that the settings ask for. -/
def solve (model : Model α) (s : Settings α) (inv : Invocation α) : Output α × List (Report α) :=
  let (out, reports) := search model s inv
  let last := [Report.finished out.status out.iterations out.objective, Report.timed]
  (out, (reports ++ last).filter s.shows)

end Optima.Lagrangian
