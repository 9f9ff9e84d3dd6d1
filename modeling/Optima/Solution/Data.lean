import Optima.Solution
import Optima.Text.Quoted

/-!
Solutions as data files: nested objects and lists, one field or element on a line, two blanks for
each level. What is not set is `null`.
-/

namespace Optima

variable {α : Type} [Printable α]

/-- The fields of an object at a depth of nesting, each with its written value. -/
def dataObject (depth : Nat) (fields : List (String × String)) : String :=
  let indent := String.ofList (List.replicate (2 * depth) ' ')
  "\x7b\n" ++
    ",\n".intercalate (fields.map fun (key, value) =>
      indent ++ "  " ++ Text.quote key ++ ": " ++ value) ++
    "\n" ++ indent ++ "\x7d"

/-- The elements of a list at a depth of nesting. -/
def dataList (depth : Nat) (elements : List String) : String :=
  let indent := String.ofList (List.replicate (2 * depth) ' ')
  if elements.isEmpty then "[]"
  else
    "[\n" ++ ",\n".intercalate (elements.map fun e => indent ++ "  " ++ e) ++ "\n" ++ indent ++ "]"

def dataOption {β : Type} (write : β → String) : Option β → String
  | some b => write b
  | none => "null"

def dataBool (b : Bool) : String := if b then "true" else "false"

def Row.data (row : Row α) : String :=
  dataObject 2 [
    ("name", dataOption Text.quote row.name),
    ("group", dataOption Text.quote row.group),
    ("optimal_value", dataOption Printable.data row.value),
    ("lower_bound_active", dataBool row.lowerActive),
    ("upper_bound_active", dataBool row.upperActive)]

def Solution.data (s : Solution α) : String :=
  dataObject 0 [
    ("decision_variables", dataList 1 (s.decisions.map Row.data)),
    ("constraints", dataList 1 (s.constraints.map Row.data)),
    ("objectives", dataList 1 (s.objectives.map Row.data))]

end Optima
