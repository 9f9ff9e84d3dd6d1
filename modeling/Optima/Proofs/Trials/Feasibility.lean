import Optima.Proofs.Problem.Lifetime

/-!
Checking a point against the constraints, and reading a solution off it.

The check evaluates the constraints one after the other and stops at the first one that is violated.
A solution has a row for each of them, whatever its value is.

* `Problem.constraintRows`: the rows that extraction begins with.
* `Component.Keeps`, `Row.Flags`: a row has a value within the bounds of its component; its flags tell
  which of the bounds the value is close to, and an infinite one never is.
* `Problem.Checks`: what the check says, in terms of such rows; `checks_of_constraintRows`: that is
  what it says.
* `Solution.Flagged`: all rows of a solution have such flags; `flagged_of_extract`: so it is with
  every solution that is read off.
* `check_agrees_with_extract`: both, for every problem and every point.
-/

namespace Optima

variable {α : Type} [Scalar α]

/-! ## Rows -/

/-- The row has a value, and that lies between the bounds of the component, both ends included. -/
def Component.Keeps (c : Component α) (row : Row α) : Prop :=
  ∃ v, row.value = some v ∧ c.lower ≤ v ∧ v ≤ c.upper

/-- The row has the value, and flags for the bounds of the component that it is close to. -/
structure Row.Flags (c : Component α) (v : α) (row : Row α) : Prop where
  value_eq : row.value = some v
  lower_iff : row.lowerActive = true ↔ Scalar.abs (c.lower - v) < Scalar.ofDecimal 1 (-5)
  upper_iff : row.upperActive = true ↔ Scalar.abs (c.upper - v) < Scalar.ofDecimal 1 (-5)
  lower_infinite : Scalar.isFinite c.lower = false → row.lowerActive = false
  upper_infinite : Scalar.isFinite c.upper = false → row.upperActive = false

theorem Component.keeps_row_iff {c : Component α} {v : α} :
    c.Keeps (c.row v) ↔ c.lower ≤ v ∧ v ≤ c.upper := by
  constructor
  · rintro ⟨_, ⟨⟩, hv⟩
    exact hv
  · exact fun hv => ⟨v, rfl, hv⟩

/-- What is undefined lies between no bounds. -/
theorem Component.defined_of_keeps [Ordered α] {components : List (Component α)}
    {rows : List (Row α)} (h : List.Forall₂ Component.Keeps components rows) :
    ∀ row ∈ rows, Scalar.isNaN row.number = false := by
  induction h with
  | nil => exact List.forall_mem_nil _
  | cons hkept _ ih =>
    obtain ⟨v, hv, hlower, -⟩ := hkept
    refine List.forall_mem_cons.2 ⟨?_, ih⟩
    rw [Row.number, hv]
    exact (Ordered.defined_of_le hlower).2

theorem isActive_iff {v bound : α} :
    isActive v bound = true ↔ Scalar.abs (bound - v) < Scalar.ofDecimal 1 (-5) :=
  decide_eq_true_iff

namespace Double

theorem finite_of_close {v bound t : Float} (h : Scalar.abs (bound - v) < t) :
    Scalar.isFinite bound = true :=
  (finite_of_sub (finite_of_abs_lt h)).1

theorem not_isActive_of_infinite (v : Float) {bound : Float} (h : Scalar.isFinite bound = false) :
    isActive v bound = false := by
  rw [← Bool.not_eq_true, isActive_iff]
  intro hclose
  rw [finite_of_close hclose] at h
  cases h

theorem flags_row (c : Component Float) (v : Float) : Row.Flags c v (c.row v) where
  value_eq := rfl
  lower_iff := isActive_iff
  upper_iff := isActive_iff
  lower_infinite := not_isActive_of_infinite v
  upper_infinite := not_isActive_of_infinite v

/-- The rows of objectives have no flags, and objectives have no bounds. -/
theorem flags_objectiveRow {c : Component Float} (hl : Scalar.isFinite c.lower = false)
    (hu : Scalar.isFinite c.upper = false) (v : Float) : Row.Flags c v (c.objectiveRow v) where
  value_eq := rfl
  lower_iff := by
    rw [← isActive_iff, not_isActive_of_infinite v hl]
    rfl
  upper_iff := by
    rw [← isActive_iff, not_isActive_of_infinite v hu]
    rfl
  lower_infinite _ := rfl
  upper_infinite _ := rfl

end Double

namespace Problem

/-! ## The check -/

/-- The rows of the constraints at a point, which extraction begins with. -/
def constraintRows (p : Problem α) (point : List α) : Except (Failure α) (List (Row α)) :=
  p.constraints.mapM fun c => do
    return c.row (← evaluateAt p.symbols point c)

theorem constraints_of_extract {p : Problem α} {point : List α} {solution : Solution α}
    (h : p.extract point = .ok solution) : p.constraintRows point = .ok solution.constraints := by
  obtain ⟨constraints, hc, h₁⟩ := bind_eq_ok.1 h
  obtain ⟨objectives, -, ⟨⟩⟩ := bind_eq_ok.1 h₁
  exact hc

/-- What the check says of a point, where the constraints have these rows. -/
structure Checks (p : Problem α) (point : List α) (rows : List (Row α)) : Prop where
  accepted_iff : ∀ values, p.checkConstraints point = .ok (some values) ↔
    List.Forall₂ Component.Keeps p.constraints rows ∧ values = rows.map Row.number
  refused_iff : p.checkConstraints point = .ok none ↔
    ¬ List.Forall₂ Component.Keeps p.constraints rows
  refused_of_undefined : ∀ row ∈ rows, Scalar.isNaN row.number = true →
    p.checkConstraints point = .ok none

variable {symbols : List Symbol} {point : List α} {components : List (Component α)}
  {rows : List (Row α)}

section

variable (h : List.Forall₂
  (fun c row => ∃ v, evaluateAt symbols point c = .ok v ∧ row = c.row v) components rows)

include h

theorem valuesWithin_of_keeps (hkeeps : List.Forall₂ Component.Keeps components rows) :
    valuesWithin symbols point components = .ok (some (rows.map Row.number)) := by
  induction h with
  | nil => rfl
  | @cons c row components rows hrow _ ih =>
    obtain ⟨v, hv, rfl⟩ := hrow
    obtain ⟨hkept, hrest⟩ := List.forall₂_cons.1 hkeeps
    rw [valuesWithin, hv]
    dsimp only [bind, Except.bind]
    rw [if_pos (Component.keeps_row_iff.1 hkept), ih hrest]
    rfl

/-- The check stops at the first constraint that is violated, and no later one matters. -/
theorem valuesWithin_of_not_keeps (hkeeps : ¬ List.Forall₂ Component.Keeps components rows) :
    valuesWithin symbols point components = .ok none := by
  induction h with
  | nil => exact absurd .nil hkeeps
  | @cons c row components rows hrow _ ih =>
    obtain ⟨v, hv, rfl⟩ := hrow
    rw [List.forall₂_cons, Component.keeps_row_iff] at hkeeps
    rw [valuesWithin, hv]
    dsimp only [bind, Except.bind]
    split
    · next hkept =>
      rw [ih fun hrest => hkeeps ⟨hkept, hrest⟩]
      rfl
    · rfl

end

theorem checks_of_constraintRows [Ordered α] {p : Problem α}
    (hlength : point.length = p.symbols.length) (h : p.constraintRows point = .ok rows) :
    p.Checks point rows := by
  have hrows := forall₂_rows h
  have hcheck : p.checkConstraints point = valuesWithin p.symbols point p.constraints :=
    if_pos hlength
  by_cases hkeeps : List.Forall₂ Component.Keeps p.constraints rows
  · have haccepted := hcheck.trans (valuesWithin_of_keeps hrows hkeeps)
    refine ⟨fun values => ?_, ?_, fun row hrow hnan => ?_⟩
    · rw [haccepted]
      exact ⟨fun he => by cases he; exact ⟨hkeeps, rfl⟩, fun he => by rw [he.2]⟩
    · rw [haccepted]
      exact ⟨nofun, fun hnot => absurd hkeeps hnot⟩
    · rw [Component.defined_of_keeps hkeeps row hrow] at hnan
      cases hnan
  · have hrefused := hcheck.trans (valuesWithin_of_not_keeps hrows hkeeps)
    refine ⟨fun values => ?_, ?_, fun _ _ _ => hrefused⟩
    · rw [hrefused]
      exact ⟨nofun, fun he => absurd he.1 hkeeps⟩
    · exact iff_of_true hrefused hkeeps

theorem Checks.ne_error {p : Problem α} (h : p.Checks point rows) (e : Failure α) :
    p.checkConstraints point ≠ .error e := by
  by_cases hkeeps : List.Forall₂ Component.Keeps p.constraints rows
  · rw [(h.accepted_iff _).2 ⟨hkeeps, rfl⟩]
    nofun
  · rw [h.refused_iff.2 hkeeps]
    nofun

theorem exists_evaluateAt_iff {c : Component α} (hlength : point.length = symbols.length) :
    (∃ v, evaluateAt symbols point c = .ok v) ↔ c.expression.occurrences ⊆ symbols := by
  constructor
  · rintro ⟨v, hv⟩
    exact (evaluateAt_eq_ok_iff.1 hv).1
  · exact fun h => ⟨_, evaluateAt_eq_ok_iff.2 ⟨h, hlength, rfl⟩⟩

/-! ## Objectives -/

/-- No objective has a finite bound. -/
def ObjectivesUnbounded (p : Problem α) : Prop :=
  ∀ c ∈ p.objectives, Scalar.isFinite c.lower = false ∧ Scalar.isFinite c.upper = false

theorem ObjectivesUnbounded.of_step [Ordered α] {p q : Problem α} (h : p.ObjectivesUnbounded)
    (hs : Step p q) : q.ObjectivesUnbounded := by
  cases hs with
  | objective =>
    exact forall_mem_concat h ⟨Ordered.isFinite_neg_infinity, Ordered.isFinite_infinity⟩
  | unchanged | decision | constraint | configured | unsolved | solved => exact h

theorem Reachable.objectivesUnbounded [Printable α] [Ordered α] {p : Problem α}
    (h : p.Reachable) : p.ObjectivesUnbounded := by
  obtain ⟨solver, verbose, ops, rfl⟩ := h
  have hcreate : (create solver verbose : Problem α).ObjectivesUnbounded := nofun
  generalize (create solver verbose : Problem α) = p at hcreate
  induction ops generalizing p with
  | nil => exact hcreate
  | cons op ops ih => exact ih _ (hcreate.of_step (step_perform p op))

end Problem

/-! ## Solutions -/

/-- Each row of the solution has a value, and flags for the bounds of its component that this is
close to. -/
structure Solution.Flagged (p : Problem α) (solution : Solution α) : Prop where
  decisions : List.Forall₂ (fun c row => ∃ v, Row.Flags c v row) p.decisions solution.decisions
  constraints : List.Forall₂ (fun c row => ∃ v, Row.Flags c v row) p.constraints
    solution.constraints
  objectives : List.Forall₂ (fun c row => ∃ v, Row.Flags c v row) p.objectives solution.objectives

namespace Problem

variable {p : Problem Float} {point : List Float}

theorem flagged_decisions (components : List (Component Float))
    (hlength : point.length = components.length) :
    List.Forall₂ (fun c row => ∃ v, Row.Flags c v row) components
      (List.zipWith Component.row components point) := by
  induction components generalizing point with
  | nil => exact .nil
  | cons c components ih =>
    cases point with
    | nil => cases hlength
    | cons v point =>
      exact .cons ⟨v, Double.flags_row c v⟩ (ih (Nat.succ.inj hlength))

theorem flagged_of_extract (hobjectives : p.ObjectivesUnbounded)
    (hlength : point.length = p.decisions.length) {solution : Solution Float}
    (h : p.extract point = .ok solution) : solution.Flagged p := by
  obtain ⟨hdecisions, hconstraints, hrows⟩ := extracted_of_extract h
  refine ⟨hdecisions ▸ flagged_decisions _ hlength, ?_, ?_⟩
  · refine hconstraints.imp fun c row hrow => ?_
    obtain ⟨v, -, rfl⟩ := hrow
    exact ⟨v, Double.flags_row c v⟩
  · have hmem := (List.forall₂_and_left _ _).2 ⟨hobjectives, hrows⟩
    refine hmem.imp fun c row hrow => ?_
    obtain ⟨⟨hl, hu⟩, v, -, rfl⟩ := hrow
    exact ⟨v, Double.flags_objectiveRow hl hu v⟩

/-- The check refuses points of a wrong dimension, and no others, with the two numbers. Of a point
of the right dimension it says what the rows of the constraints say, which extraction begins with:
it hands back their values if each lies within the bounds of its constraint, and refuses the point
if one does not, as an undefined one never does. The flags of a solution are set exactly for the
bounds that a value is close to, and so for no infinite one. -/
theorem check_agrees_with_extract (hreachable : p.Reachable)
    (hconstraints : ∀ c ∈ p.constraints, c.expression.occurrences ⊆ p.symbols)
    (point : List Float) :
    (∀ expected found, p.checkConstraints point = .error (.guessLength expected found) ↔
      point.length ≠ p.decisions.length ∧ expected = p.decisions.length ∧
        found = point.length) ∧
    (point.length = p.decisions.length →
      ∃ rows, p.constraintRows point = .ok rows ∧ p.Checks point rows ∧
        ((∃ solution, p.extract point = .ok solution) ↔
          ∀ c ∈ p.objectives, c.expression.occurrences ⊆ p.symbols) ∧
        ∀ solution, p.extract point = .ok solution →
          solution.constraints = rows ∧ solution.Flagged p) := by
  have hsymbols : p.symbols.length = p.decisions.length :=
    length_symbols hreachable.wellFormed.decisions
  rw [← hsymbols]
  by_cases hlength : point.length = p.symbols.length
  · have hevaluated : ∀ c ∈ p.constraints, ∃ v, evaluateAt p.symbols point c = .ok v :=
      fun c hc => (exists_evaluateAt_iff hlength).2 (hconstraints c hc)
    obtain ⟨rows, hrows⟩ := (exists_rows_iff Component.row).2 hevaluated
    have hchecks : p.Checks point rows := checks_of_constraintRows hlength hrows
    refine ⟨fun expected found => ?_, fun _ => ⟨rows, hrows, hchecks, ?_, fun solution hs => ?_⟩⟩
    · exact iff_of_false (hchecks.ne_error _) fun h => h.1 hlength
    · rw [exists_extract_iff, and_iff_right hevaluated]
      exact forall₂_congr fun c _ => exists_evaluateAt_iff hlength
    · have hsame := (constraints_of_extract hs).symm.trans hrows
      exact ⟨Except.ok.inj hsame,
        flagged_of_extract hreachable.objectivesUnbounded (hlength.trans hsymbols) hs⟩
  · refine ⟨fun expected found => ?_, fun h => absurd h hlength⟩
    rw [checkConstraints, if_neg hlength]
    constructor
    · rintro ⟨⟩
      exact ⟨hlength, rfl, rfl⟩
    · rintro ⟨-, rfl, rfl⟩
      rfl

def fences : List (Operation Float) :=
  [.addVariable "x" 0 10 none false, .addVariable "y" 0 10 none false,
    .addConstraint (.binary (.sym ⟨"x", 0⟩) .add (.sym ⟨"y", 1⟩)) 1 5 none none,
    .addConstraint (.binary (.sym ⟨"x", 0⟩) .sub (.sym ⟨"y", 1⟩)) (-Scalar.infinity) 0 none none,
    .addObjective (.sym ⟨"x", 0⟩) none none]

/-- A bound on the sum of two variables that is reached, and an infinite one on their difference. -/
def fenced : Problem Float := (create "auglag" false).after fences

theorem check_agrees_with_extract_fenced :
    fenced.Reachable ∧
      (∀ c ∈ fenced.constraints, c.expression.occurrences ⊆ fenced.symbols) ∧
      (∃ rows solution, fenced.Checks [2, 3] rows ∧ fenced.extract [2, 3] = .ok solution ∧
        solution.constraints = rows ∧ solution.Flagged fenced) ∧
      (fenced.checkConstraints [2, 3]).toOption = some (some [5, -1]) ∧
      (fenced.constraintRows [2, 3]).toOption.map
        (List.map fun row => (row.lowerActive, row.upperActive)) =
          some [(false, true), (false, false)] := by
  have hreachable : fenced.Reachable := ⟨"auglag", false, fences, rfl⟩
  have hconstraints : ∀ c ∈ fenced.constraints, c.expression.occurrences ⊆ fenced.symbols := by
    decide +kernel
  have hobjectives : ∀ c ∈ fenced.objectives, c.expression.occurrences ⊆ fenced.symbols := by
    decide +kernel
  obtain ⟨rows, -, hchecks, hextract, hsolution⟩ :=
    (check_agrees_with_extract hreachable hconstraints [2, 3]).2 (by decide +kernel)
  obtain ⟨solution, hs⟩ := hextract.2 hobjectives
  exact ⟨hreachable, hconstraints, ⟨rows, solution, hchecks, hs, hsolution solution hs⟩,
    by decide +kernel, by decide +kernel⟩

end Problem

end Optima
