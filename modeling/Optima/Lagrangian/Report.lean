import Optima.Invocation
import Optima.Lagrangian.Measures
import Optima.Log
import Optima.Output

/-!
What a run of the augmented Lagrangian method reports, which settings ask for it, and its text.
-/

namespace Optima.Lagrangian

/-- What there is to report of a run. -/
inductive Report (α : Type)
  | rejected (fault : Invocation.Fault α)
  | subproblem (termination : Descent.Termination) (iterations : Nat) (stationarity : α)
  | round (number : Nat) (objective : α) (measures : Measures α) (penalty : α)
  | finished (status : Status) (iterations : Nat) (objective : α)
  | timed
  deriving Repr

/-- The settings ask for the report. -/
def Settings.shows {α : Type} (s : Settings α) : Report α → Bool
  | .rejected _ => !s.silent
  | .subproblem .. => s.reportsSubproblems
  | .round .. => s.reportsIterations
  | .finished .. => s.reportsSummary
  | .timed => s.timed

def Report.level {α : Type} : Report α → Level
  | rejected _ => .debug
  | subproblem .. => .trace
  | round .. => .debug
  | finished .. => .info
  | timed => .info

/-- The text of a report; the time that a run took is left out. -/
def Report.text {α : Type} [Printable α] : Report α → String
  | rejected fault => "auglag: rejected invocation: " ++ fault.message
  | subproblem termination iterations stationarity =>
    "auglag: subproblem " ++ termination.name ++ " after " ++ toString iterations ++
      " steps, stationarity " ++ Printable.tabular 3 stationarity
  | round number objective measures penalty =>
    "auglag: iter " ++ padLeft 3 (toString number) ++
      "  f = " ++ padLeft 14 (Printable.tabular 8 objective) ++
      "  viol = " ++ Printable.tabular 3 measures.violation ++
      "  stat = " ++ Printable.tabular 3 measures.stationarity ++
      "  compl = " ++ Printable.tabular 3 measures.complementarity ++
      "  rho = " ++ Printable.tabular 1 penalty
  | finished status iterations objective =>
    "auglag: " ++ status.code ++ " after " ++ toString iterations ++ " iterations, f = " ++
      Printable.tabular 8 objective
  | timed => "auglag: solve time"

def Report.message {α : Type} [Printable α] (r : Report α) : Message := ⟨r.level, r.text⟩

end Optima.Lagrangian
