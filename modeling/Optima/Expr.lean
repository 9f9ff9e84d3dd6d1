import Optima.Scalar
import Optima.Symbol

/-!
Expressions over symbols and scalars, and what they mean.

* `eval`: the value under an assignment of scalars to symbols.
* `mem_symbols`: the free symbols are those that occur.
* `dependsOn_iff`: an expression depends on a symbol exactly if the symbol occurs in it.
-/

namespace Optima

/-! ## Operations -/

inductive UnaryOp
  | neg | sin | cos | tan | exp | ln | sqrt | abs | sign
  deriving DecidableEq, Repr

inductive BinaryOp
  | add | sub | mul | div | pow
  deriving DecidableEq, Repr

namespace UnaryOp

def apply {α : Type} [Scalar α] : UnaryOp → α → α
  | neg, a => -a
  | sin, a => Scalar.sin a
  | cos, a => Scalar.cos a
  | tan, a => Scalar.tan a
  | exp, a => Scalar.exp a
  | ln, a => Scalar.ln a
  | sqrt, a => Scalar.sqrt a
  | abs, a => Scalar.abs a
  | sign, a => Scalar.sign a

/-- The function's name in a formula; negation is written as a sign and has none. -/
def name? : UnaryOp → Option String
  | neg => none
  | sin => some "sin"
  | cos => some "cos"
  | tan => some "tan"
  | exp => some "exp"
  | ln => some "ln"
  | sqrt => some "sqrt"
  | abs => some "abs"
  | sign => some "sign"

/-- The function of a name; the natural logarithm has two. -/
def ofName? : String → Option UnaryOp
  | "sin" => some sin
  | "cos" => some cos
  | "tan" => some tan
  | "exp" => some exp
  | "ln" => some ln
  | "log" => some ln
  | "sqrt" => some sqrt
  | "abs" => some abs
  | "sign" => some sign
  | _ => none

theorem ofName?_name? (op : UnaryOp) (name : String) (h : op.name? = some name) :
    ofName? name = some op := by
  cases op <;> simp only [name?, Option.some.injEq, reduceCtorEq] at h <;> subst h <;> rfl

end UnaryOp

namespace BinaryOp

def apply {α : Type} [Scalar α] : BinaryOp → α → α → α
  | add, a, b => a + b
  | sub, a, b => a - b
  | mul, a, b => a * b
  | div, a, b => a / b
  | pow, a, b => Scalar.pow a b

def mark : BinaryOp → String
  | add => "+"
  | sub => "-"
  | mul => "*"
  | div => "/"
  | pow => "^"

end BinaryOp

/-! ## Expressions -/

inductive Expr (α : Type)
  | const (value : α)
  | sym (symbol : Symbol)
  | unary (op : UnaryOp) (arg : Expr α)
  | binary (left : Expr α) (op : BinaryOp) (right : Expr α)
  deriving Repr

namespace Expr

variable {α : Type}

/-- Equality of trees; constants are compared as scalars, so an undefined one differs from
itself. -/
def beq [BEq α] : Expr α → Expr α → Bool
  | const v, const w => v == w
  | sym s, sym t => s == t
  | unary op a, unary op' b => op == op' && a.beq b
  | binary l op r, binary l' op' r' => op == op' && l.beq l' && r.beq r'
  | _, _ => false

instance [BEq α] : BEq (Expr α) := ⟨beq⟩

def constant? : Expr α → Option α
  | const v => some v
  | _ => none

def isConst (e : Expr α) : Bool := e.constant?.isSome

/-- The value under an assignment. -/
def eval [Scalar α] (env : Symbol → α) : Expr α → α
  | const v => v
  | sym s => env s
  | unary op a => op.apply (a.eval env)
  | binary l op r => op.apply (l.eval env) (r.eval env)

/-! ## Free symbols -/

/-- Every occurrence of a symbol, from left to right. -/
def occurrences : Expr α → List Symbol
  | const _ => []
  | sym s => [s]
  | unary _ a => a.occurrences
  | binary l _ r => l.occurrences ++ r.occurrences

/-- The free symbols, each where it first occurs. -/
def symbols (e : Expr α) : List Symbol := e.occurrences.eraseDups

def dependsOn (s : Symbol) : Expr α → Bool
  | const _ => false
  | sym t => t == s
  | unary _ a => a.dependsOn s
  | binary l _ r => l.dependsOn s || r.dependsOn s

theorem mem_symbols {s : Symbol} {e : Expr α} : s ∈ e.symbols ↔ s ∈ e.occurrences := by
  simp [symbols, List.mem_eraseDups]

theorem dependsOn_iff {s : Symbol} {e : Expr α} : e.dependsOn s = true ↔ s ∈ e.occurrences := by
  induction e with
  | const v => simp [dependsOn, occurrences]
  | sym t =>
    simp only [dependsOn, occurrences, beq_iff_eq, List.mem_singleton]
    exact eq_comm
  | unary op a ih => simpa [dependsOn, occurrences] using ih
  | binary l op r ihl ihr => simp [dependsOn, occurrences, ihl, ihr]

end Expr

end Optima
