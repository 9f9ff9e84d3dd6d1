import Optima.Engine

/-!
Families of engines, known by name, and the options that a problem starts with.

* `ofName?_name`: each family is found under its name.
-/

namespace Optima

inductive Family
  | augmentedLagrangian
  deriving DecidableEq, Repr

namespace Family

def name : Family → String
  | augmentedLagrangian => Lagrangian.space

def ofName? (name : String) : Option Family :=
  if name = Lagrangian.space then some augmentedLagrangian else none

theorem ofName?_name (f : Family) : ofName? f.name = some f := by cases f; rfl

/-- The state of the family's engines. -/
abbrev State (α : Type) : Family → Type
  | augmentedLagrangian => Lagrangian.Handle α

def engine {α : Type} [Scalar α] [Printable α] : (f : Family) → Engine α (f.State α)
  | augmentedLagrangian => Lagrangian.engine

/-- The options of a family's problems, for silent and for verbose ones. -/
def defaultOptions {α : Type} (verbose : Bool) : Family → Options α
  | augmentedLagrangian =>
    .ofList [(⟨none, "print_time"⟩, .bool verbose),
      (⟨some Lagrangian.space, "suppress_all_output"⟩, .text (if verbose then "no" else "yes")),
      (⟨some Lagrangian.space, "step_strategy"⟩, .text "barzilai_borwein"),
      (⟨some Lagrangian.space, "print_level"⟩, .int 4)]

end Family

/-- The options for a solver's name; under an unknown one there is only the timing. -/
def defaultOptions {α : Type} (solver : String) (verbose : Bool) : Options α :=
  match Family.ofName? solver with
  | some family => family.defaultOptions verbose
  | none => .ofList [(⟨none, "print_time"⟩, .bool verbose)]

end Optima
