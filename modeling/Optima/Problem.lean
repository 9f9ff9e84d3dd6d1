import Optima.Engine.Family
import Optima.Formula.Parser
import Optima.Problem.Component

/-!
Problems under construction: components in the order in which they were added, the options for a
solver, and the solution of the last solve if there is one.

* `addVariable`, `addConstraint`, `addObjective`: components are only ever appended.
* `program`: the program that an engine gets.
* `checkConstraints`: whether a point keeps all constraints.
-/

namespace Optima

structure Problem (α : Type) where
  decisions : List (Component α)
  constraints : List (Component α)
  objectives : List (Component α)
  isSolved : Bool
  /-- The solution of the last successful solve. -/
  solution : Option (Solution α)
  solver : String
  verbose : Bool
  options : Options α
  /-- The next id that no symbol has yet. -/
  nextId : Nat
  deriving Repr

namespace Problem

variable {α : Type}

/-- A problem without components, with the default options of a solver. -/
def create (solver : String) (verbose : Bool) : Problem α :=
  ⟨[], [], [], false, none, solver, verbose, defaultOptions solver verbose, 0⟩

/-- Forgets the solution of an earlier solve. -/
def markUnsolved (p : Problem α) : Problem α := { p with isSolved := false, solution := none }

def markSolved (p : Problem α) (solution : Solution α) : Problem α :=
  { p with isSolved := true, solution := some solution }

/-- A symbol that the problem has not used before. -/
def freshSymbol (p : Problem α) (name : String) : Symbol × Problem α :=
  (⟨name, p.nextId⟩, { p with nextId := p.nextId + 1 })

variable [Scalar α] [Printable α]

/-! ## Components -/

/-- Adds a decision variable and hands back its symbol. -/
def addVariable (p : Problem α) (name : String) (lower upper : α) (group : Option String)
    (discrete : Bool) : Logged (Except (Failure α) (Symbol × Problem α)) := do
  let (s, fresh) := p.freshSymbol name
  match Component.create (.decision discrete) (.sym s) lower upper (some name) group with
  | .error e => return .error e
  | .ok c =>
    Logged.sayIf p.verbose .debug ("Added decision variable " ++ c.describe ++ " to problem")
    return .ok (s, { fresh with decisions := p.decisions ++ [c] })

/-- The name of the next component of a list: the given one, or the list's own with a number. -/
def nextName (given : Option String) (base : String) (components : List (Component α)) : String :=
  given.getD (base ++ "_" ++ toString (components.length + 1))

def addConstraint (p : Problem α) (expression : Expr α) (lower upper : α)
    (name group : Option String) : Logged (Except (Failure α) (Problem α)) := do
  match Component.create .constraint expression lower upper
      (some (nextName name "Constraint" p.constraints)) group with
  | .error e => return .error e
  | .ok c =>
    Logged.sayIf p.verbose .debug ("Added constraint " ++ c.describe ++ " to problem")
    return .ok { p with constraints := p.constraints ++ [c] }

def addObjective (p : Problem α) (expression : Expr α) (name group : Option String) :
    Logged (Problem α) := do
  let c := Component.objective expression (some (nextName name "Objective" p.objectives)) group
  Logged.sayIf p.verbose .debug ("Added objective " ++ c.describe ++ " to problem")
  return { p with objectives := p.objectives ++ [c] }

/-! ## Options -/

def addOptions (p : Problem α) (space : Option String)
    (values : List (String × Options.Value α)) : Logged (Problem α) := do
  let options := p.options.merge space values
  Logged.sayIf p.verbose .debug ("Solver options are now " ++ options.describe)
  return { p with options }

/-- Goes back to the default options of the solver. -/
def restoreOptions (p : Problem α) : Problem α :=
  { p with options := defaultOptions p.solver p.verbose }

def clearOptions (p : Problem α) : Logged (Problem α) := do
  Logged.sayIf p.verbose .debug "Deleted all solver options"
  return { p with options := .empty }

/-- Deletes all options, or goes back to the default ones. -/
def resetOptions (p : Problem α) (deleteAll : Bool) : Logged (Problem α) :=
  if deleteAll then p.clearOptions else pure p.restoreOptions

/-- Takes another solver, with its default options. -/
def setSolver (p : Problem α) (solver : String) : Problem α := { p with solver }.restoreOptions

def setOptions (p : Problem α) (options : Options α) : Problem α := { p with options }

def setVerbose (p : Problem α) (verbose : Bool) : Problem α := { p with verbose }

/-! ## Views in the order of the components -/

def boxOf (components : List (Component α)) : Box α :=
  ⟨components.map Component.lower, components.map Component.upper⟩

def variableBox (p : Problem α) : Box α := boxOf p.decisions

def constraintBox (p : Problem α) : Box α := boxOf p.constraints

def namesOf (components : List (Component α)) : List String :=
  components.map fun c => c.name.getD ""

def symbols (p : Problem α) : List Symbol := p.decisions.filterMap Component.symbol?

/-- The decision variables as a scope for formulas. -/
def scope (p : Problem α) : Formula.Scope := .ofList p.symbols

/-- Reads a formula over the decision variables. -/
def parse (p : Problem α) (text : String) : Except (Failure α) (Expr α) :=
  match Formula.parse p.scope text with
  | .ok e => .ok e
  | .error e => .error (.formula e)

def objectiveExpr (p : Problem α) : Expr α := Expr.sum (p.objectives.map Component.expression)

def program (p : Problem α) : Program α :=
  ⟨p.symbols, p.objectiveExpr, p.constraints.map Component.expression⟩

/-! ## Evaluation -/

/-- The value of a component's expression at a point. -/
def evaluateAt (symbols : List Symbol) (point : List α) (c : Component α) :
    Except (Failure α) α :=
  match evaluate symbols c.expression point with
  | .ok v => .ok v
  | .error e => .error (.evaluation e)

/-- The values of the constraints, up to the first one that is out of its bounds. -/
def valuesWithin (symbols : List Symbol) (point : List α) :
    List (Component α) → Except (Failure α) (Option (List α))
  | [] => .ok (some [])
  | c :: rest => do
    let v ← evaluateAt symbols point c
    if c.lower ≤ v ∧ v ≤ c.upper then
      return (← valuesWithin symbols point rest).map (v :: ·)
    else return none

/-- The values of all constraints at a point, or nothing if one of them is out of its bounds. -/
def checkConstraints (p : Problem α) (point : List α) : Except (Failure α) (Option (List α)) :=
  if point.length = p.symbols.length then valuesWithin p.symbols point p.constraints
  else .error (.guessLength p.symbols.length point.length)

end Problem

end Optima
