import Optima.Box
import Optima.Decimal

/-!
Invocations: the point an engine starts from and the bounds it has to respect.

* `fault?`: the first reason why an invocation does not fit a program.
* `isValid_iff`: an invocation is valid if there is no such reason.
-/

namespace Optima

/-- A starting point with bounds on the variables and on the constraints. -/
structure Invocation (α : Type) where
  guess : List α
  decisions : Box α
  constraints : Box α
  deriving Repr

namespace Invocation

/-! ## What can be wrong -/

/-- The lists that make up an invocation. -/
inductive Argument
  | guess | lowerVariables | upperVariables | lowerConstraints | upperConstraints
  deriving DecidableEq, Repr

def Argument.label : Argument → String
  | guess => "x0"
  | lowerVariables => "lbx"
  | upperVariables => "ubx"
  | lowerConstraints => "lbg"
  | upperConstraints => "ubg"

/-- What a bound is on. -/
inductive Bounded
  | decisions | constraints
  deriving DecidableEq, Repr

def Bounded.label : Bounded → String
  | decisions => "x"
  | constraints => "g"

inductive Fault (α : Type)
  | length (argument : Argument) (found expected : Nat)
  | undefinedBound (on : Bounded) (index : Nat)
  | crossedBounds (on : Bounded) (index : Nat) (lower upper : α)
  deriving Repr

def Fault.message {α : Type} [Printable α] : Fault α → String
  | length argument found expected =>
    argument.label ++ " has length " ++ toString found ++ ", expected " ++ toString expected
  | undefinedBound on index => "bound on " ++ on.label ++ "[" ++ toString index ++ "] is NaN"
  | crossedBounds on index lower upper =>
    "bounds on " ++ on.label ++ "[" ++ toString index ++ "] are crossed: " ++
      Printable.plain lower ++ " > " ++ Printable.plain upper

/-! ## Validity -/

variable {α : Type} [Scalar α]

def lengthFault? (argument : Argument) (values : List α) (expected : Nat) : Option (Fault α) :=
  if values.length = expected then none else some (.length argument values.length expected)

/-- The first pair of bounds that is undefined or crossed; `index` is the place of the first one. -/
def pairFault? (on : Bounded) (index : Nat) : List (α × α) → Option (Fault α)
  | [] => none
  | (l, u) :: rest =>
    if Scalar.isNaN l || Scalar.isNaN u then some (.undefinedBound on index)
    else if u < l then some (.crossedBounds on index l u)
    else pairFault? on (index + 1) rest

def boundsFault? (on : Bounded) (box : Box α) : Option (Fault α) :=
  pairFault? on 0 (box.lower.zip box.upper)

/-- The first fault for a program with `n` variables and `m` constraints: lengths are looked at
before bounds. -/
def fault? (inv : Invocation α) (n m : Nat) : Option (Fault α) :=
  lengthFault? .guess inv.guess n
    <|> lengthFault? .lowerVariables inv.decisions.lower n
    <|> lengthFault? .upperVariables inv.decisions.upper n
    <|> lengthFault? .lowerConstraints inv.constraints.lower m
    <|> lengthFault? .upperConstraints inv.constraints.upper m
    <|> boundsFault? .decisions inv.decisions
    <|> boundsFault? .constraints inv.constraints

def isValid (inv : Invocation α) (n m : Nat) : Bool := (inv.fault? n m).isNone

theorem isValid_iff {inv : Invocation α} {n m : Nat} :
    inv.isValid n m = true ↔ inv.fault? n m = none := by
  simp [isValid]

end Invocation

end Optima
