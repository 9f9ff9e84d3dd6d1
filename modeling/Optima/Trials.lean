import Optima.Solution.Text
import Optima.Trials.Extraction
import Optima.Trials.Guess

/-!
Trials: an engine is invoked a number of times, each time from a guess that the time before led to,
and the best success is kept.

* `Trials.run`: the trials one after the other.
* `Trials.best`: the success with the lowest objective, the earliest of equal ones.
* `Solver.start`: all trials of a problem, whose solution is written back to it.
* `Problem.solve`: the same with the solver that the problem names.
* `length_run`: there are as many trials as asked for.
-/

namespace Optima

variable {α σ : Type}

/-- One invocation of an engine and what came of it. -/
structure Trial (α : Type) where
  index : Nat
  invocation : Invocation α
  output : Output α
  deriving Repr

/-- What is kept of a trial. -/
structure TrialOutcome (α : Type) where
  index : Nat
  success : Bool
  status : Status
  objective : α
  iterations : Nat
  deriving Repr

/-- What is kept of all trials of a start. -/
structure TrialReport (α : Type) where
  outcomes : List (TrialOutcome α)
  /-- The trial whose point became the solution. -/
  best : Option Nat
  deriving Repr

namespace TrialReport

def isSolved (r : TrialReport α) : Bool := r.best.isSome

def successful (r : TrialReport α) : List (TrialOutcome α) := r.outcomes.filter (·.success)

def failed (r : TrialReport α) : List (TrialOutcome α) := r.outcomes.filter (!·.success)

end TrialReport

def Trial.outcome (t : Trial α) : TrialOutcome α :=
  ⟨t.index, t.output.success, t.output.status, t.output.objective, t.output.iterations⟩

variable [Scalar α] [Printable α]

namespace Trials

/-! ## One after the other -/

def outcomeText (index total : Nat) (out : Output α) : String :=
  "Trial " ++ toString (index + 1) ++ "/" ++ toString total ++ ": " ++
    (if out.success then "success" else "failure") ++ " (" ++ out.status.code ++ "), f = " ++
    Printable.plain out.objective

def followingText (index : Nat) (out : Output α) : String :=
  (if out.success then "Next guess: primal solution of trial "
    else "Next guess: bound multipliers of trial ") ++ toString (index + 1)

/-- What all trials of a start have in common. -/
structure Setting (α : Type) where
  decisions : Box α
  constraints : Box α
  dimension : Nat
  total : Nat
  deriving Repr

/-- Runs `remaining` trials from a guess; the first one has the number `index`. -/
def run (engine : Engine α σ) (setting : Setting α) : (remaining index : Nat) → σ → List α →
    Logged (List (Trial α))
  | 0, _, _, _ => pure []
  | remaining + 1, index, state, guess => do
    let inv : Invocation α := ⟨guess, setting.decisions, setting.constraints⟩
    let (out, state) ← engine.invoke state inv
    Logged.say .info (outcomeText index setting.total out)
    Logged.say .debug (followingText index out)
    let later ← run engine setting remaining (index + 1) state
      (Guess.following setting.dimension out)
    return ⟨index, inv, out⟩ :: later

/-- A success replaces the best one so far if its objective is lower. -/
def better (best : Option (Trial α)) (t : Trial α) : Option (Trial α) :=
  if t.output.success then
    match best with
    | none => some t
    | some b => if t.output.objective < b.output.objective then some t else some b
  else best

def best (trials : List (Trial α)) : Option (Trial α) := trials.foldl better none

def report (trials : List (Trial α)) (best : Option Nat) : TrialReport α :=
  ⟨trials.map Trial.outcome, best⟩

theorem length_run (engine : Engine α σ) (setting : Setting α) (remaining index : Nat) (state : σ)
    (guess : List α) :
    (run engine setting remaining index state guess).value.length = remaining := by
  induction remaining generalizing index state guess with
  | zero => rfl
  | succ remaining ih =>
    simp only [run, Logged.value_bind]
    exact congrArg (· + 1) (ih ..)

end Trials

/-! ## Solvers -/

/-- A family's engine, or another one in its place, with the problem it works on. -/
structure Solver (α σ : Type) where
  family : Family
  engine : Engine α σ
  problem : Option (Problem α)
  /-- The output of the trial that the last start selected. -/
  selected : Option (Output α)

/-- What a start leads to: a report or a failure, the solver afterwards, and the trials that ran. -/
structure Start (α σ : Type) where
  report : Except (Failure α) (TrialReport α)
  solver : Solver α σ
  trials : List (Trial α)

namespace Solver

/-- The solver of a family, without a problem. -/
def ofFamily (family : Family) : Solver α (family.State α) := ⟨family, family.engine, none, none⟩

def attach (s : Solver α σ) (p : Problem α) : Solver α σ := { s with problem := some p }

/-- Puts another engine in the place of the family's. -/
def withEngine {τ : Type} (s : Solver α σ) (engine : Engine α τ) : Solver α τ :=
  ⟨s.family, engine, s.problem, s.selected⟩

/-- The given guess, which has to fit the problem, or a drawn one. -/
def firstGuess (p : Problem α) (guess : Option (List α)) (draws : Nat → α) :
    Except (Failure α) (List α) :=
  match guess with
  | some g =>
    if g.length = p.symbols.length then .ok g
    else .error (.guessLength p.symbols.length g.length)
  | none => .ok (Guess.sample p.variableBox draws)

/-- The first guess and the instantiated engine for a start, if nothing speaks against it. -/
def prepare (engine : Engine α σ) (p : Problem α) (guess : Option (List α)) (draws : Nat → α) :
    Except (Failure α) (List α × σ) := do
  let first ← firstGuess p guess draws
  match engine.instantiate p.program p.options with
  | .ok state => return (first, state)
  | .error e => throw (.engine e)

/-- Writes the point of the best trial back to the problem. -/
def conclude (s : Solver α σ) (p : Problem α) (trials : List (Trial α)) : Logged (Start α σ) := do
  match Trials.best trials with
  | none =>
    Logged.say .warn
      ("All " ++ toString trials.length ++ " trials failed, problem left unsolved")
    return ⟨.ok (Trials.report trials none), s, trials⟩
  | some t =>
    Logged.say .debug
      ("Selected trial " ++ toString (t.index + 1) ++ " with f = " ++
        Printable.plain t.output.objective)
    match p.extract t.output.point with
    | .error e => return ⟨.error e, s, trials⟩
    | .ok solution =>
      return ⟨.ok (Trials.report trials (some t.index)),
        { s with problem := some (p.markSolved solution), selected := some t.output }, trials⟩

/-- Runs `count` trials of the solver's problem, from the given guess or a drawn one. A failure
before the first trial leaves everything as it was. -/
def start (s : Solver α σ) (count : Nat) (guess : Option (List α)) (draws : Nat → α) :
    Logged (Start α σ) :=
  if count = 0 then pure ⟨.error .noTrials, s, []⟩
  else
    match s.problem with
    | none => pure ⟨.error .detached, s, []⟩
    | some p =>
      match prepare s.engine p guess draws with
      | .error e => pure ⟨.error e, s, []⟩
      | .ok (first, state) => do
        let trials ← Trials.run s.engine
          ⟨p.variableBox, p.constraintBox, p.symbols.length, count⟩ count 0 state first
        conclude { s with problem := some p.markUnsolved, selected := none } p.markUnsolved trials

end Solver

/-! ## Solving a problem with its own solver -/

namespace Problem

/-- What is said of a problem after its trials. -/
def announce (p : Problem α) : Logged Unit :=
  match p.solution with
  | some solution => do
    Logged.say .info "Solve succeeded"
    Logged.sayIf p.verbose .debug ("Results:\n" ++ solution.text)
  | none => Logged.say .warn "Problem seems infeasible"

/-- Solves a problem with the solver it names, and hands back the problem as it is afterwards. A
problem whose trials all fail has no solution, which is no failure. -/
def solve (p : Problem α) (count : Nat) (guess : Option (List α)) (draws : Nat → α) :
    Logged (Except (Failure α) (Option (Solution α)) × Problem α) := do
  Logged.sayIf p.verbose .debug
    ("Using " ++ p.solver ++ " solver, options: " ++ p.options.describe)
  match Family.ofName? p.solver with
  | none => return (.error (.unsupported p.solver), p)
  | some family =>
    let start ← ((Solver.ofFamily family).attach p).start count guess draws
    let after := start.solver.problem.getD p
    match start.report with
    | .error e => return (.error e, after)
    | .ok _ =>
      announce after
      return (.ok after.solution, after)

end Problem

end Optima
