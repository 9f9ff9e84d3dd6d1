/-!
Symbols: the variables of formulas.
-/

namespace Optima

/-- A variable. Symbols of one name are different variables if their ids differ; the name is for
reading and printing. -/
structure Symbol where
  name : String
  id : Nat
  deriving DecidableEq, Repr

end Optima
