import Optima.Expr

/-!
Folding constructors: constants are computed and arithmetic identities applied as an expression is
built.

* `ofUnary`: computes a constant argument and cancels two signs.
* `ofBinary`: computes two constant operands and applies the identities of zero and one.
* `ofBinary_const_const`, `ofUnary_const`: operations on constants give constants.
-/

namespace Optima.Expr

variable {α : Type} [Scalar α]

def ofUnary (op : UnaryOp) : Expr α → Expr α
  | const v => const (op.apply v)
  | unary inner arg => if op = .neg ∧ inner = .neg then arg else unary op (unary inner arg)
  | arg => unary op arg

/-- What a constant left operand makes of an operation on its own. -/
def fromLeft? (l : α) (op : BinaryOp) (right : Expr α) : Option (Expr α) :=
  match op with
  | .add => if l == 0 then some right else none
  | .sub => if l == 0 then some (ofUnary .neg right) else none
  | .mul => if l == 0 then some (const 0) else if l == 1 then some right else none
  | .div => if l == 0 then some (const 0) else none
  | .pow => none

/-- What a constant right operand makes of an operation on its own. -/
def fromRight? (left : Expr α) (op : BinaryOp) (r : α) : Option (Expr α) :=
  match op with
  | .add | .sub => if r == 0 then some left else none
  | .mul => if r == 0 then some (const 0) else if r == 1 then some left else none
  | .div => if r == 1 then some left else none
  | .pow => if r == 0 then some (const 1) else if r == 1 then some left else none

def ofBinary (left : Expr α) (op : BinaryOp) (right : Expr α) : Expr α :=
  match left, right with
  | const l, const r => const (op.apply l r)
  | const l, right => (fromLeft? l op right).getD (binary (const l) op right)
  | left, const r => (fromRight? left op r).getD (binary left op (const r))
  | left, right => binary left op right

theorem ofUnary_const (op : UnaryOp) (v : α) : ofUnary op (const v) = const (op.apply v) := rfl

theorem ofBinary_const_const (l r : α) (op : BinaryOp) :
    ofBinary (const l) op (const r) = const (op.apply l r) := rfl

/-! ## Arithmetic on expressions -/

instance : Neg (Expr α) := ⟨ofUnary .neg⟩
instance : Add (Expr α) := ⟨fun a b => ofBinary a .add b⟩
instance : Sub (Expr α) := ⟨fun a b => ofBinary a .sub b⟩
instance : Mul (Expr α) := ⟨fun a b => ofBinary a .mul b⟩
instance : Div (Expr α) := ⟨fun a b => ofBinary a .div b⟩

def pow (a b : Expr α) : Expr α := ofBinary a .pow b

/-- The sum from left to right; it starts at the constant zero. -/
def sum (es : List (Expr α)) : Expr α := es.foldl (· + ·) (const 0)

theorem neg_def (a : Expr α) : -a = ofUnary .neg a := rfl
theorem add_def (a b : Expr α) : a + b = ofBinary a .add b := rfl
theorem sub_def (a b : Expr α) : a - b = ofBinary a .sub b := rfl
theorem mul_def (a b : Expr α) : a * b = ofBinary a .mul b := rfl
theorem div_def (a b : Expr α) : a / b = ofBinary a .div b := rfl

end Optima.Expr
