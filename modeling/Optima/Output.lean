import Optima.Scalar

/-!
What an engine returns: a point with its values and multipliers, and how the search ended.

* `rejected`: the output for an invocation that does not fit the program.
* `isSuccess_iff`: which ways of ending count as success.
-/

namespace Optima

/-- How a search ended. -/
inductive Status
  /-- The requested tolerances are met. -/
  | solved
  /-- Only the acceptable tolerances are met. -/
  | acceptable
  /-- The violation no longer shrinks although the penalty is as large as allowed. -/
  | infeasible
  | iterationLimit
  /-- A value or a derivative is infinite or undefined. -/
  | invalidNumber
  /-- The invocation does not fit the program. -/
  | invalidInput
  deriving DecidableEq, Repr

namespace Status

def all : List Status :=
  [solved, acceptable, infeasible, iterationLimit, invalidNumber, invalidInput]

def isSuccess : Status → Bool
  | solved | acceptable => true
  | _ => false

def code : Status → String
  | solved => "Solve_Succeeded"
  | acceptable => "Solved_To_Acceptable_Level"
  | infeasible => "Infeasible_Problem_Detected"
  | iterationLimit => "Maximum_Iterations_Exceeded"
  | invalidNumber => "Invalid_Number_Detected"
  | invalidInput => "Invalid_Input"

theorem isSuccess_iff {s : Status} : s.isSuccess = true ↔ s = solved ∨ s = acceptable := by
  cases s <;> simp [isSuccess]

theorem mem_all (s : Status) : s ∈ all := by cases s <;> decide

end Status

structure Output (α : Type) where
  point : List α
  /-- Multipliers of the variable bounds, negative where a lower bound is active. -/
  boundMultipliers : List α
  /-- Multipliers of the constraint bounds, positive where an upper bound is active. -/
  constraintMultipliers : List α
  objective : α
  constraints : List α
  success : Bool
  status : Status
  iterations : Nat
  deriving Repr

/-- The output for an invocation that was not run, for `n` variables and `m` constraints. The guess
is handed back if it has the right length. -/
def Output.rejected {α : Type} [Scalar α] (guess : List α) (n m : Nat) : Output α where
  point := if guess.length = n then guess else List.replicate n 0
  boundMultipliers := List.replicate n 0
  constraintMultipliers := List.replicate m 0
  objective := Scalar.nan
  constraints := List.replicate m Scalar.nan
  success := false
  status := .invalidInput
  iterations := 0

end Optima
