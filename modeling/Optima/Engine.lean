import Optima.Lagrangian.Solve

/-!
Engines: solvers that are instantiated for a program once and then invoked as often as wanted.

* `Engine`: any such solver, whose state between invocations is its own.
* `Lagrangian.engine`: the augmented Lagrangian method as an engine.
-/

namespace Optima

/-- Why an engine cannot be instantiated. -/
inductive EngineError (α : Type)
  | option (bad : Lagrangian.BadOption α)
  | expression (error : EvalError)
  deriving Repr

def EngineError.message {α : Type} [Printable α] : EngineError α → String
  | option bad => "Invalid solver option " ++ bad.key.dotted ++ ": " ++ bad.objection.reason
  | expression error => "Cannot build solver functions: " ++ error.message

/-- A solver with states of type `σ`. -/
structure Engine (α σ : Type) where
  name : String
  instantiate : Program α → Options α → Except (EngineError α) σ
  invoke : σ → Invocation α → Logged (Output α × σ)

namespace Lagrangian

variable {α : Type} [Scalar α]

/-- The method, instantiated for a program. -/
structure Handle (α : Type) where
  model : Model α
  settings : Settings α
  deriving Repr

/-- Compiles a program for the given settings. -/
def Handle.compile (p : Program α) (settings : Settings α) :
    Except (EngineError α) (Handle α) :=
  match Model.compile p with
  | .ok model => .ok ⟨model, settings⟩
  | .error e => .error (.expression e)

/-- Reads the options before the program is compiled. -/
def Handle.instantiate (p : Program α) (opts : Options α) : Except (EngineError α) (Handle α) :=
  match Settings.ofOptions opts with
  | .ok settings => Handle.compile p settings
  | .error bad => .error (.option bad)

def Handle.withMaxIterations (h : Handle α) (n : Nat) : Handle α :=
  { h with settings := { h.settings with maxIterations := n } }

def Handle.withTolerance (h : Handle α) (tolerance : α) : Handle α :=
  { h with settings := { h.settings with tolerance } }

def Handle.invoke [Printable α] (h : Handle α) (inv : Invocation α) : Logged (Output α) :=
  let (out, reports) := solve h.model h.settings inv
  ⟨out, reports.map Report.message⟩

def engine [Printable α] : Engine α (Handle α) where
  name := space
  instantiate := Handle.instantiate
  invoke h inv := do return (← h.invoke inv, h)

end Lagrangian

end Optima
