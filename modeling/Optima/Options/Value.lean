import Optima.Decimal
import Optima.Scalar

/-!
Values of options. Integers are accepted where a real number is wanted, and nothing else is
converted.
-/

namespace Optima.Options

inductive Value (α : Type)
  | bool (value : Bool)
  | int (value : Int)
  | real (value : α)
  | text (value : String)
  deriving Repr

namespace Value

variable {α : Type}

def bool? : Value α → Option Bool
  | bool b => some b
  | _ => none

def int? : Value α → Option Int
  | int n => some n
  | _ => none

def real? [Scalar α] : Value α → Option α
  | real v => some v
  | int n => some (Scalar.ofInt n)
  | _ => none

def text? : Value α → Option String
  | text s => some s
  | _ => none

def typeName : Value α → String
  | bool _ => "bool"
  | int _ => "integer"
  | real _ => "real"
  | text _ => "string"

/-- How messages write a value. -/
def describe [Printable α] : Value α → String
  | bool true => "true"
  | bool false => "false"
  | int n => String.ofList (Decimal.signed n)
  | real v => Printable.plain v
  | text s => "'" ++ s ++ "'"

end Value

end Optima.Options
