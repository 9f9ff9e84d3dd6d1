import Optima.Expr

/-!
Functions: expressions compiled against an ordered list of inputs.

* `Function.compile`: resolves every symbol to the first position it has among the inputs.
* `Function.call`: evaluates the resolved tree at a list of values.
* `Function.call_eq_error_iff`: a call fails only for a wrong number of values.
-/

namespace Optima

/-- Why an expression cannot be evaluated. -/
inductive EvalError
  | unbound (name : String)
  | arity (expected found : Nat)
  deriving DecidableEq, Repr

def EvalError.message : EvalError → String
  | unbound name => s!"Symbol '{name}' is not an input of the function"
  | arity expected found => s!"Function takes {expected} inputs but {found} values were given"

/-- An expression whose symbols are positions in a list of values. -/
inductive Compiled (α : Type)
  | const (value : α)
  | input (position : Nat)
  | unary (op : UnaryOp) (arg : Compiled α)
  | binary (left : Compiled α) (op : BinaryOp) (right : Compiled α)
  deriving Repr

namespace Compiled

variable {α : Type}

def eval [Scalar α] (values : List α) : Compiled α → α
  | const v => v
  | input i => values.getD i Scalar.nan
  | unary op a => op.apply (a.eval values)
  | binary l op r => op.apply (l.eval values) (r.eval values)

/-- The positions that an evaluation looks up. -/
def positions : Compiled α → List Nat
  | const _ => []
  | input i => [i]
  | unary _ a => a.positions
  | binary l _ r => l.positions ++ r.positions

/-- Replaces each symbol by its first position among the inputs. -/
def ofExpr (inputs : List Symbol) : Expr α → Except EvalError (Compiled α)
  | .const v => .ok (const v)
  | .sym s =>
    match inputs.idxOf? s with
    | some i => .ok (input i)
    | none => .error (.unbound s.name)
  | .unary op a => do return unary op (← ofExpr inputs a)
  | .binary l op r => do
    let l ← ofExpr inputs l
    let r ← ofExpr inputs r
    return binary l op r

end Compiled

/-- A compiled expression and the symbols that its positions stand for. -/
structure Function (α : Type) where
  inputs : List Symbol
  body : Compiled α
  deriving Repr

namespace Function

variable {α : Type}

def compile (inputs : List Symbol) (e : Expr α) : Except EvalError (Function α) := do
  return ⟨inputs, ← Compiled.ofExpr inputs e⟩

def arity (f : Function α) : Nat := f.inputs.length

variable [Scalar α]

/-- The value of the body with the inputs bound to `values`, one each. -/
def call (f : Function α) (values : List α) : Except EvalError α :=
  if values.length = f.arity then .ok (f.body.eval values)
  else .error (.arity f.arity values.length)

theorem call_eq_ok_iff {f : Function α} {values : List α} {v : α} :
    f.call values = .ok v ↔ values.length = f.arity ∧ f.body.eval values = v := by
  unfold call; split <;> simp_all

theorem call_eq_error_iff {f : Function α} {values : List α} {e : EvalError} :
    f.call values = .error e ↔
      values.length ≠ f.arity ∧ e = .arity f.arity values.length := by
  unfold call; split <;> simp_all [eq_comm]

end Function

/-- Compiles an expression and calls it once. -/
def evaluate {α : Type} [Scalar α] (inputs : List Symbol) (e : Expr α) (values : List α) :
    Except EvalError α := do
  (← Function.compile inputs e).call values

end Optima
