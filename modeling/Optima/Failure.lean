import Optima.Engine
import Optima.Formula.Error

/-!
What can go wrong when problems are built and solved.
-/

namespace Optima

inductive Failure (α : Type)
  /-- Bounds are undefined, or the upper one is below the lower one. -/
  | bounds (name : String) (lower upper : α)
  | unsupported (solver : String)
  /-- A solver is started without a problem. -/
  | detached
  | noTrials
  | guessLength (expected found : Nat)
  | formula (error : Formula.Error)
  | evaluation (error : EvalError)
  | engine (error : EngineError α)
  deriving Repr

def Failure.message {α : Type} [Printable α] : Failure α → String
  | bounds name lower upper =>
    "Invalid bounds for " ++ name ++ ": upper bound " ++ Printable.plain upper ++
      " is below lower bound " ++ Printable.plain lower
  | unsupported solver => "Solver '" ++ solver ++ "' is not supported"
  | detached => "Invalid state: no problem attached to the solver"
  | noTrials => "At least one trial is required"
  | guessLength expected found =>
    "Initial guess has " ++ toString found ++ " entries, expected one per decision variable (" ++
      toString expected ++ ")"
  | formula error => error.message
  | evaluation error => error.message
  | engine error => error.message

end Optima
