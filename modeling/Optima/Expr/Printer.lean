import Optima.Decimal
import Optima.Expr

/-!
Formulas as text, with no more parentheses than reading them back needs.

* `precedence`: how tightly the outermost operation binds.
* `print`: sums and products group to the left, powers to the right, and a sign stands between
  products and powers.
-/

namespace Optima

def BinaryOp.precedence : BinaryOp → Nat
  | add | sub => 1
  | mul | div => 2
  | pow => 4

namespace Expr

/-- A sign binds tighter than a product and looser than a power. -/
def signPrecedence : Nat := 3

def atomPrecedence : Nat := 5

variable {α : Type} [Scalar α]

def precedence : Expr α → Nat
  | const v => if v < 0 then signPrecedence else atomPrecedence
  | sym _ => atomPrecedence
  | unary op _ => if op = .neg then signPrecedence else atomPrecedence
  | binary _ op _ => op.precedence

def enclose (parens : Bool) (text : String) : String := if parens then "(" ++ text ++ ")" else text

/-- The left operand of `op` needs parentheses. -/
def leftEnclosed (op : BinaryOp) (left : Expr α) : Bool :=
  if op = .pow then left.precedence ≤ op.precedence else left.precedence < op.precedence

/-- The right operand of `op` needs parentheses. -/
def rightEnclosed (op : BinaryOp) (right : Expr α) : Bool :=
  if op = .pow then right.precedence < signPrecedence else right.precedence ≤ op.precedence

def print [Printable α] : Expr α → String
  | const v => Printable.plain v
  | sym s => s.name
  | unary op arg =>
    match op.name? with
    | none => "-" ++ enclose (arg.precedence < signPrecedence) arg.print
    | some name => name ++ "(" ++ arg.print ++ ")"
  | binary l op r =>
    enclose (leftEnclosed op l) l.print ++ " " ++ op.mark ++ " " ++
      enclose (rightEnclosed op r) r.print

end Expr

end Optima
