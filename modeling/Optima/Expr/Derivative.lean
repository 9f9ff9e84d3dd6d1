import Optima.Expr.Fold

/-!
Partial derivatives of expressions.

* `diff`: built with the folding constructors, so that derivatives of polynomials stay small. The
  absolute value has the sign as its derivative, and the sign has zero.
* `length_gradient`: a gradient has one entry for each symbol.
-/

namespace Optima.Expr

variable {α : Type} [Scalar α]

/-- The derivative of `op` at `arg`, times the derivative `inner` of its argument. -/
def chainRule (op : UnaryOp) (arg inner : Expr α) : Expr α :=
  match op with
  | .neg => -inner
  | .sin => ofUnary .cos arg * inner
  | .cos => -(ofUnary .sin arg) * inner
  | .tan => inner / (ofUnary .cos arg).pow (const Scalar.two)
  | .exp => ofUnary .exp arg * inner
  | .ln => inner / arg
  | .sqrt => inner / (const Scalar.two * ofUnary .sqrt arg)
  | .abs => ofUnary .sign arg * inner
  | .sign => const 0

/-- The derivative of a power. A constant exponent moves to the front; otherwise the power is read
as the exponential of the exponent times the logarithm of the base. -/
def diffPow (base exponent dBase dExponent : Expr α) : Expr α :=
  match exponent with
  | const c => const c * base.pow (const (c - 1)) * dBase
  | exponent =>
    binary base .pow exponent *
      (dExponent * ofUnary .ln base + exponent * dBase / base)

/-- The partial derivative with respect to a symbol. -/
def diff (s : Symbol) : Expr α → Expr α
  | const _ => const 0
  | sym t => const (if t = s then 1 else 0)
  | unary op arg =>
    let inner := arg.diff s
    match inner with
    | const v => if v == 0 then const 0 else chainRule op arg inner
    | _ => chainRule op arg inner
  | binary l op r =>
    let dl := l.diff s
    let dr := r.diff s
    match op with
    | .add => dl + dr
    | .sub => dl - dr
    | .mul => dl * r + l * dr
    | .div => dl / r - l * dr / r.pow (const Scalar.two)
    | .pow => diffPow l r dl dr

/-- The partial derivatives with respect to several symbols, in their order. -/
def gradient (e : Expr α) (ss : List Symbol) : List (Expr α) := ss.map fun s => e.diff s

theorem length_gradient (e : Expr α) (ss : List Symbol) : (e.gradient ss).length = ss.length := by
  simp [gradient]

end Optima.Expr
