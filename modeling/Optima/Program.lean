import Optima.Expr

/-!
Nonlinear programs: minimize an objective over some variables while constraints stay in bounds. The
bounds are no part of a program, so that one program can be run with many.
-/

namespace Optima

structure Program (α : Type) where
  decisions : List Symbol
  objective : Expr α
  constraints : List (Expr α)
  deriving Repr

end Optima
