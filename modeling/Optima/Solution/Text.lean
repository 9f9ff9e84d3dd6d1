import Optima.Decimal
import Optima.Solution

/-!
Solutions as text for people: the sum of the objectives, then all rows under three headings.
-/

namespace Optima

variable {α : Type} [Scalar α] [Printable α]

/-- What is said of the bounds of a row. -/
def Row.activity (row : Row α) : String :=
  match row.lowerActive, row.upperActive with
  | true, true => " [both bounds active]"
  | true, false => " [lower bound active]"
  | false, true => " [upper bound active]"
  | false, false => ""

def Row.line (row : Row α) : String :=
  "  " ++ row.name.getD "unnamed" ++ " = " ++ Printable.plain row.number ++ row.activity ++ "\n"

/-- A heading with a line for each row. -/
def Row.block (title : String) (rows : List (Row α)) : String :=
  title ++ ":\n" ++ String.join (rows.map Row.line)

def Solution.text (s : Solution α) : String :=
  "objective sum: " ++ Printable.plain (s.objectiveSum none) ++ "\n" ++
    Row.block "objectives" s.objectives ++
    Row.block "decision variables" s.decisions ++
    Row.block "constraints" s.constraints

end Optima
