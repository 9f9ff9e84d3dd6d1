import Optima.Descent
import Optima.Options

/-!
Settings of the augmented Lagrangian engine, and reading them from options.

* `Setting.ofKey?`: which key sets what.
* `assign`: checks one value and sets it.
* `ofOptions`: sets every option over the defaults, in the order of the store, and checks at the end
  that the penalty does not start above its cap.
* `ofKey?_key`: each setting is found under its own key.
-/

namespace Optima.Lagrangian

/-- The space of the engine's options. -/
def space : String := "auglag"

structure Settings (α : Type) where
  /-- How often the multipliers are updated at most. -/
  maxIterations : Nat
  /-- How many descent iterations a subproblem gets at most. -/
  innerMaxIterations : Nat
  /-- The tolerance for stationarity and complementarity. -/
  tolerance : α
  violationTolerance : α
  acceptableTolerance : α
  acceptableViolationTolerance : α
  firstPenalty : α
  maxPenalty : α
  /-- The factor by which the penalty grows when the violation does not halve. -/
  penaltyGrowth : α
  /-- Zero is silent; from five on each multiplier update is reported, from eight on each
  subproblem. -/
  printLevel : Int
  silent : Bool
  timed : Bool
  rule : Descent.StepRule
  deriving Repr

namespace Settings

variable {α : Type} [Scalar α]

def default : Settings α where
  maxIterations := 100
  innerMaxIterations := 3000
  tolerance := Scalar.ofDecimal 1 (-8)
  violationTolerance := Scalar.ofDecimal 1 (-8)
  acceptableTolerance := Scalar.ofDecimal 1 (-6)
  acceptableViolationTolerance := Scalar.ofDecimal 1 (-6)
  firstPenalty := Scalar.ofDecimal 10 0
  maxPenalty := Scalar.ofDecimal 1 12
  penaltyGrowth := Scalar.ofDecimal 10 0
  printLevel := 0
  silent := false
  timed := false
  rule := .barzilaiBorwein

def reportsSummary (s : Settings α) : Bool := !s.silent && decide (1 ≤ s.printLevel)

def reportsIterations (s : Settings α) : Bool := !s.silent && decide (5 ≤ s.printLevel)

def reportsSubproblems (s : Settings α) : Bool := !s.silent && decide (8 ≤ s.printLevel)

end Settings

/-! ## Keys -/

inductive Setting
  | maxIterations | innerMaxIterations
  | tolerance | violationTolerance | acceptableTolerance | acceptableViolationTolerance
  | firstPenalty | maxPenalty | penaltyGrowth
  | printLevel | silent | timed | rule
  deriving DecidableEq, Repr

namespace Setting

def all : List Setting :=
  [maxIterations, innerMaxIterations, tolerance, violationTolerance, acceptableTolerance,
    acceptableViolationTolerance, firstPenalty, maxPenalty, penaltyGrowth, printLevel, silent,
    timed, rule]

def key : Setting → Options.Key
  | maxIterations => ⟨some space, "max_iter"⟩
  | innerMaxIterations => ⟨some space, "inner_max_iter"⟩
  | tolerance => ⟨some space, "tol"⟩
  | violationTolerance => ⟨some space, "constr_viol_tol"⟩
  | acceptableTolerance => ⟨some space, "acceptable_tol"⟩
  | acceptableViolationTolerance => ⟨some space, "acceptable_constr_viol_tol"⟩
  | firstPenalty => ⟨some space, "mu_init"⟩
  | maxPenalty => ⟨some space, "mu_max"⟩
  | penaltyGrowth => ⟨some space, "mu_growth"⟩
  | printLevel => ⟨some space, "print_level"⟩
  | silent => ⟨some space, "suppress_all_output"⟩
  | timed => ⟨none, "print_time"⟩
  | rule => ⟨some space, "step_strategy"⟩

def ofKey? (key : Options.Key) : Option Setting := all.find? fun s => s.key = key

theorem mem_all (s : Setting) : s ∈ all := by cases s <;> decide

theorem ofKey?_key (s : Setting) : ofKey? s.key = some s := by cases s <;> decide

theorem key_of_ofKey? {key : Options.Key} {s : Setting} (h : ofKey? key = some s) :
    s.key = key := by
  simpa using List.find?_some h

end Setting

/-! ## Values -/

/-- What can be wrong with an option. -/
inductive Objection (α : Type)
  | unknown
  | notBool
  | notNumber (typeName : String)
  | notPositive (found : α)
  | notInteger (typeName : String)
  | negative (found : Int)
  | notAboveOne (found : α)
  | notLevel (found : Options.Value α)
  | notFlag (found : Options.Value α)
  | notRule (found : Options.Value α)
  | aboveCap (cap : α)
  deriving Repr

def Objection.reason {α : Type} [Printable α] : Objection α → String
  | unknown => "unknown option"
  | notBool => "expected a bool"
  | notNumber typeName => "expected a number, found " ++ typeName
  | notPositive found => "must be positive, found " ++ Printable.plain found
  | notInteger typeName => "expected an integer, found " ++ typeName
  | negative found => "must be non-negative, found " ++ String.ofList (Decimal.signed found)
  | notAboveOne found => "must exceed 1, found " ++ Printable.plain found
  | notLevel found => "expected an integer in 0..=12, found " ++ found.describe
  | notFlag found => "expected 'yes', 'no' or a bool, found " ++ found.describe
  | notRule found => "expected 'barzilai_borwein' or 'fixed', found " ++ found.describe
  | aboveCap cap => "exceeds auglag.mu_max (" ++ Printable.plain cap ++ ")"

variable {α : Type} [Scalar α]

open Options (Value)

def number (value : Value α) : Except (Objection α) α :=
  match value.real? with
  | some v => .ok v
  | none => .error (.notNumber value.typeName)

def positive (value : Value α) : Except (Objection α) α := do
  let v ← number value
  if 0 < v then return v else throw (.notPositive v)

def aboveOne (value : Value α) : Except (Objection α) α := do
  let v ← number value
  if 1 < v then return v else throw (.notAboveOne v)

def count (value : Value α) : Except (Objection α) Nat :=
  match value.int? with
  | some n => if n < 0 then .error (.negative n) else .ok n.toNat
  | none => .error (.notInteger value.typeName)

def level (value : Value α) : Except (Objection α) Int :=
  match value.int? with
  | some n => if 0 ≤ n ∧ n ≤ 12 then .ok n else .error (.notLevel value)
  | none => .error (.notLevel value)

def flag (value : Value α) : Except (Objection α) Bool :=
  match value with
  | .bool b => .ok b
  | .text "yes" => .ok true
  | .text "no" => .ok false
  | value => .error (.notFlag value)

def bool (value : Value α) : Except (Objection α) Bool :=
  match value.bool? with
  | some b => .ok b
  | none => .error .notBool

def stepRule (value : Value α) : Except (Objection α) Descent.StepRule :=
  match value.text?.bind Descent.StepRule.ofName? with
  | some r => .ok r
  | none => .error (.notRule value)

/-- Checks the value of one setting and sets it. -/
def assign (setting : Setting) (value : Value α) (s : Settings α) :
    Except (Objection α) (Settings α) :=
  match setting with
  | .maxIterations => return { s with maxIterations := ← count value }
  | .innerMaxIterations => return { s with innerMaxIterations := ← count value }
  | .tolerance => return { s with tolerance := ← positive value }
  | .violationTolerance => return { s with violationTolerance := ← positive value }
  | .acceptableTolerance => return { s with acceptableTolerance := ← positive value }
  | .acceptableViolationTolerance =>
    return { s with acceptableViolationTolerance := ← positive value }
  | .firstPenalty => return { s with firstPenalty := ← positive value }
  | .maxPenalty => return { s with maxPenalty := ← positive value }
  | .penaltyGrowth => return { s with penaltyGrowth := ← aboveOne value }
  | .printLevel => return { s with printLevel := ← level value }
  | .silent => return { s with silent := ← flag value }
  | .timed => return { s with timed := ← bool value }
  | .rule => return { s with rule := ← stepRule value }

/-- An option that the engine does not take. -/
structure BadOption (α : Type) where
  key : Options.Key
  objection : Objection α
  deriving Repr

/-- Sets one option over the settings so far. -/
def assignOption (s : Settings α) (entry : Options.Key × Value α) :
    Except (BadOption α) (Settings α) :=
  match Setting.ofKey? entry.1 with
  | none => .error ⟨entry.1, .unknown⟩
  | some setting =>
    match assign setting entry.2 s with
    | .ok s => .ok s
    | .error objection => .error ⟨entry.1, objection⟩

/-- The penalty must not start above its cap. -/
def checkPenalties (s : Settings α) : Except (BadOption α) (Settings α) :=
  if s.maxPenalty < s.firstPenalty then
    .error ⟨Setting.firstPenalty.key, .aboveCap s.maxPenalty⟩
  else .ok s

/-- The settings that options stand for. -/
def Settings.ofOptions (opts : Options α) : Except (BadOption α) (Settings α) := do
  checkPenalties (← opts.entries.foldlM assignOption default)

end Optima.Lagrangian
