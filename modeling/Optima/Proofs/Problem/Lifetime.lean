import Optima.Proofs.Problem.Views
import Optima.Proofs.Scalar.Double
import Optima.Proofs.Trials.Extraction
import Optima.Proofs.Trials.Run

/-!
The lifetime of a problem: whatever is done to it, and in whatever order.

* `Operation`: what can be done to a problem; `perform`: what comes of it.
* `Reachable`: what operations can lead to.
* `Step`: everything that one operation can change; `step_perform`: no operation changes more.
* `WellFormed`: what holds of a problem at any time; `WellFormed.of_step`: every step keeps it.
* `Extends`: components are added behind those that there are; `extends_of_step`: a step does no
  more.
* `wellFormed_after_create`: what holds after every finite sequence of operations.
-/

namespace Optima.Problem

variable {α : Type} [Scalar α] [Printable α]

/-! ## Operations -/

/-- What can be done to a problem. A start may be one of any solver, with any engine. -/
inductive Operation (α : Type) [Scalar α] [Printable α] : Type 1
  | addVariable (name : String) (lower upper : α) (group : Option String) (discrete : Bool)
  | addConstraint (expression : Expr α) (lower upper : α) (name group : Option String)
  | addObjective (expression : Expr α) (name group : Option String)
  /-- A symbol is taken that does not become a decision variable. -/
  | takeSymbol (name : String)
  | addOptions (space : Option String) (values : List (String × Options.Value α))
  | resetOptions (deleteAll : Bool)
  | setSolver (solver : String)
  | setOptions (options : Options α)
  | setVerbose (verbose : Bool)
  | start {σ : Type} (solver : Solver α σ) (count : Nat) (guess : Option (List α))
    (draws : Nat → α)
  | solve (count : Nat) (guess : Option (List α)) (draws : Nat → α)

def Operation.IsAdd : Operation α → Prop
  | .addVariable .. | .addConstraint .. | .addObjective .. => True
  | _ => False

/-- Why a computation has failed, if it has. -/
def failure? {β : Type} : Except (Failure α) β → Option (Failure α)
  | .ok _ => none
  | .error e => some e

/-- Why an operation fails, if it does, and the problem after it. -/
def perform (p : Problem α) : Operation α → Option (Failure α) × Problem α
  | .addVariable name lower upper group discrete =>
    match (p.addVariable name lower upper group discrete).value with
    | .ok (_, q) => (none, q)
    | .error e => (some e, p)
  | .addConstraint expression lower upper name group =>
    match (p.addConstraint expression lower upper name group).value with
    | .ok q => (none, q)
    | .error e => (some e, p)
  | .addObjective expression name group => (none, (p.addObjective expression name group).value)
  | .takeSymbol name => (none, (p.freshSymbol name).2)
  | .addOptions space values => (none, (p.addOptions space values).value)
  | .resetOptions deleteAll => (none, (p.resetOptions deleteAll).value)
  | .setSolver solver => (none, p.setSolver solver)
  | .setOptions options => (none, p.setOptions options)
  | .setVerbose verbose => (none, p.setVerbose verbose)
  | .start solver count guess draws =>
    let start := ((solver.attach p).start count guess draws).value
    (failure? start.report, start.solver.problem.getD p)
  | .solve count guess draws =>
    let solved := (p.solve count guess draws).value
    (failure? solved.1, solved.2)

/-- The problem after operations one after the other. -/
def after (p : Problem α) (ops : List (Operation α)) : Problem α :=
  ops.foldl (fun p op => (p.perform op).2) p

/-- The problem comes from an empty one by some operations. -/
def Reachable (p : Problem α) : Prop :=
  ∃ (solver : String) (verbose : Bool) (ops : List (Operation α)),
    (create solver verbose).after ops = p

theorem after_append (p : Problem α) (earlier later : List (Operation α)) :
    p.after (earlier ++ later) = (p.after earlier).after later := by
  rw [after, List.foldl_append]
  rfl

/-! ## What an operation can change -/

/-- What one operation can make of a problem. -/
inductive Step (p : Problem α) : Problem α → Prop
  | unchanged : Step p p
  | decision (name : String) (lower upper : α) (group : Option String) (discrete : Bool)
      (h : Component.ordered lower upper = true) :
    Step p
      { p with
        nextId := p.nextId + 1
        decisions := p.decisions ++
          [⟨.decision discrete, .sym ⟨name, p.nextId⟩, lower, upper, some name, group⟩] }
  | constraint (expression : Expr α) (lower upper : α) (name : String) (group : Option String)
      (h : Component.ordered lower upper = true) :
    Step p
      { p with
        constraints := p.constraints ++ [⟨.constraint, expression, lower, upper, some name, group⟩] }
  | objective (expression : Expr α) (name : String) (group : Option String) :
    Step p
      { p with objectives := p.objectives ++ [Component.objective expression (some name) group] }
  | configured (solver : String) (verbose : Bool) (options : Options α) (nextId : Nat)
      (h : p.nextId ≤ nextId) :
    Step p { p with solver, verbose, options, nextId }
  | unsolved : Step p p.markUnsolved
  | solved (point : List α) (solution : Solution α) (h : p.extract point = .ok solution) :
    Step p (p.markUnsolved.markSolved solution)

variable {p q : Problem α}

theorem step_addVariable (p : Problem α) (name : String) (lower upper : α)
    (group : Option String) (discrete : Bool) :
    Step p (p.perform (.addVariable name lower upper group discrete)).2 := by
  unfold perform addVariable
  by_cases h : Component.ordered lower upper = true
  · simp only [Component.create, h, if_true]
    exact .decision name lower upper group discrete h
  · simp only [Component.create, h]
    exact .unchanged

theorem step_addConstraint (p : Problem α) (expression : Expr α) (lower upper : α)
    (name group : Option String) :
    Step p (p.perform (.addConstraint expression lower upper name group)).2 := by
  unfold perform addConstraint
  by_cases h : Component.ordered lower upper = true
  · simp only [Component.create, h, if_true]
    exact .constraint expression lower upper _ group h
  · simp only [Component.create, h]
    exact .unchanged

theorem step_of_started {σ : Type} {s : Solver α σ} {count : Nat} {guess : Option (List α)}
    {draws : Nat → α} {start : Start α σ} (h : s.Started count guess draws start)
    (hp : s.problem = some p) : Step p (start.solver.problem.getD p) := by
  cases h with
  | refused e =>
    rw [hp]
    exact .unchanged
  | ran hcount hq hprepare h =>
    rw [hp] at hq
    cases hq
    cases h with
    | exhausted hbest => exact .unsolved
    | unreadable hbest hextract => exact .unsolved
    | solved hbest hextract => exact .solved _ _ hextract

theorem step_solve (p : Problem α) (count : Nat) (guess : Option (List α)) (draws : Nat → α) :
    Step p (p.solve count guess draws).value.2 := by
  unfold solve
  rw [Logged.value_bind]
  cases Family.ofName? p.solver with
  | none => exact .unchanged
  | some family =>
    have h := step_of_started (p := p)
      (((Solver.ofFamily family).attach p).started_start count guess draws) rfl
    dsimp only
    rw [Logged.value_bind]
    split
    · exact h
    · rw [Logged.value_bind]
      exact h

/-- One case for each operation. -/
theorem step_perform (p : Problem α) (op : Operation α) : Step p (p.perform op).2 := by
  cases op with
  | addVariable name lower upper group discrete =>
    exact step_addVariable p name lower upper group discrete
  | addConstraint expression lower upper name group =>
    exact step_addConstraint p expression lower upper name group
  | addObjective expression name group => exact .objective expression _ group
  | takeSymbol name => exact .configured _ _ _ _ (Nat.le_succ _)
  | addOptions space values => exact .configured _ _ _ _ (Nat.le_refl _)
  | resetOptions deleteAll =>
    cases deleteAll with
    | false => exact .configured _ _ _ _ (Nat.le_refl _)
    | true => exact .configured _ _ _ _ (Nat.le_refl _)
  | setSolver solver => exact .configured _ _ _ _ (Nat.le_refl _)
  | setOptions options => exact .configured _ _ _ _ (Nat.le_refl _)
  | setVerbose verbose => exact .configured _ _ _ _ (Nat.le_refl _)
  | start solver count guess draws =>
    exact step_of_started ((solver.attach p).started_start count guess draws) rfl
  | solve count guess draws => exact step_solve p count guess draws

/-! ## Growth -/

/-- All components of the one problem are the first ones of the other, in the same order. -/
structure Extends (p q : Problem α) : Prop where
  decisions : p.decisions <+: q.decisions
  constraints : p.constraints <+: q.constraints
  objectives : p.objectives <+: q.objectives

omit [Scalar α] [Printable α] in
theorem Extends.refl (p : Problem α) : p.Extends p :=
  ⟨List.prefix_rfl, List.prefix_rfl, List.prefix_rfl⟩

omit [Scalar α] [Printable α] in
theorem Extends.trans {r : Problem α} (h : p.Extends q) (h' : q.Extends r) : p.Extends r :=
  ⟨h.decisions.trans h'.decisions, h.constraints.trans h'.constraints,
    h.objectives.trans h'.objectives⟩

omit [Printable α] in
theorem extends_of_step (h : Step p q) : p.Extends q := by
  cases h with
  | decision => exact ⟨List.prefix_append .., List.prefix_rfl, List.prefix_rfl⟩
  | constraint => exact ⟨List.prefix_rfl, List.prefix_append .., List.prefix_rfl⟩
  | objective => exact ⟨List.prefix_rfl, List.prefix_rfl, List.prefix_append ..⟩
  | unchanged | configured | unsolved | solved =>
    exact ⟨List.prefix_rfl, List.prefix_rfl, List.prefix_rfl⟩

theorem extends_after (p : Problem α) (ops : List (Operation α)) : p.Extends (p.after ops) := by
  induction ops generalizing p with
  | nil => exact .refl p
  | cons op ops ih => exact (extends_of_step (step_perform p op)).trans (ih _)

omit [Scalar α] [Printable α] in
/-- Rows that stand for the first components still do once there are more. -/
theorem labels_of_extends {solution : Solution α} (h : solution.Labels p) (he : p.Extends q) :
    solution.Labels q :=
  ⟨h.decisions.trans (he.decisions.map _), h.constraints.trans (he.constraints.map _),
    h.objectives.trans (he.objectives.map _)⟩

/-! ## What holds at any time -/

/-- The flag tells whether there is a solution. Decision variables and constraints are what they
should be, all symbols are different, all bounds are in order, and the rows of the solution stand
for the first components. -/
structure WellFormed (p : Problem α) : Prop where
  solved_iff : p.isSolved = true ↔ p.solution.isSome = true
  decisions : ∀ c ∈ p.decisions, ∃ s, c.IsVariable s
  constraints : ∀ c ∈ p.constraints, c.IsConstraint
  distinct : (p.symbols.map Symbol.id).Nodup
  used : ∀ s ∈ p.symbols, s.id < p.nextId
  bounded_decisions : ∀ c ∈ p.decisions, c.Bounded
  bounded_constraints : ∀ c ∈ p.constraints, c.Bounded
  bounded_objectives : ∀ c ∈ p.objectives, c.Bounded
  labels : ∀ solution, p.solution = some solution → solution.Labels p

omit [Printable α] in
theorem wellFormed_create (solver : String) (verbose : Bool) :
    (create solver verbose : Problem α).WellFormed where
  solved_iff := by simp [create]
  decisions := nofun
  constraints := nofun
  distinct := List.nodup_nil
  used := nofun
  bounded_decisions := nofun
  bounded_constraints := nofun
  bounded_objectives := nofun
  labels := nofun

theorem forall_mem_concat {β : Type} {P : β → Prop} {bs : List β} {b : β}
    (h : ∀ x ∈ bs, P x) (hb : P b) : ∀ x ∈ bs ++ [b], P x := by
  intro x hx
  rcases List.mem_append.1 hx with hx | hx
  · exact h x hx
  · rw [List.mem_singleton.1 hx]
    exact hb

omit [Scalar α] [Printable α] in
/-- The symbols once a decision variable is added. -/
theorem symbols_concat (p : Problem α) {c : Component α} {s : Symbol} (h : c.IsVariable s) :
    (p.decisions ++ [c]).filterMap Component.symbol? = p.symbols ++ [s] := by
  rw [List.filterMap_append, List.filterMap_cons_some h.symbol?, List.filterMap_nil]
  rfl

variable [Arithmetic α]

omit [Printable α] in
theorem WellFormed.of_decision (h : p.WellFormed) (name : String) {lower upper : α}
    (group : Option String) (discrete : Bool) (hbounds : Component.ordered lower upper = true) :
    WellFormed
      { p with
        nextId := p.nextId + 1
        decisions := p.decisions ++
          [⟨.decision discrete, .sym ⟨name, p.nextId⟩, lower, upper, some name, group⟩] } := by
  have hnew : Component.IsVariable (⟨.decision discrete, .sym ⟨name, p.nextId⟩, lower, upper,
      some name, group⟩ : Component α) ⟨name, p.nextId⟩ := ⟨⟨discrete, rfl⟩, rfl, rfl⟩
  have hsymbols := symbols_concat p hnew
  exact
    { h with
      decisions := forall_mem_concat h.decisions ⟨_, hnew⟩
      distinct := by
        rw [symbols, hsymbols, List.map_append, List.map_singleton, List.nodup_append]
        refine ⟨h.distinct, List.nodup_singleton _, ?_⟩
        intro id hid new hmem
        obtain ⟨s, hs, rfl⟩ := List.mem_map.1 hid
        have hlt := h.used s hs
        rw [List.mem_singleton.1 hmem]
        show s.id ≠ p.nextId
        omega
      used := by
        rw [symbols, hsymbols]
        refine forall_mem_concat (fun s hs => ?_) (Nat.lt_succ_self _)
        have hlt := h.used s hs
        show s.id < p.nextId + 1
        omega
      bounded_decisions :=
        forall_mem_concat h.bounded_decisions (Component.bounded_of_ordered hbounds)
      labels := by
        intro solution hp
        exact labels_of_extends (h.labels solution hp)
          (extends_of_step (.decision name lower upper group discrete hbounds)) }

omit [Printable α] in
theorem WellFormed.of_step (h : p.WellFormed) (hs : Step p q) : q.WellFormed := by
  have hlabels (solution : Solution α) (hp : p.solution = some solution) : solution.Labels q :=
    labels_of_extends (h.labels solution hp) (extends_of_step hs)
  cases hs with
  | unchanged => exact h
  | decision name lower upper group discrete hbounds =>
    exact h.of_decision name group discrete hbounds
  | constraint expression lower upper name group hbounds =>
    exact
      { h with
        constraints := forall_mem_concat h.constraints ⟨rfl, name, rfl⟩
        bounded_constraints :=
          forall_mem_concat h.bounded_constraints (Component.bounded_of_ordered hbounds)
        labels := hlabels }
  | objective expression name group =>
    exact
      { h with
        bounded_objectives :=
          forall_mem_concat h.bounded_objectives (Component.bounded_objective ..)
        labels := hlabels }
  | configured solver verbose options nextId hid =>
    exact
      { h with
        used := fun s hs => Nat.lt_of_lt_of_le (h.used s hs) hid
        labels := hlabels }
  | unsolved =>
    exact
      { h with
        solved_iff := by simp [markUnsolved]
        labels := nofun }
  | solved point solution hextract =>
    have hl := labels_of_extract hextract
    exact
      { h with
        solved_iff := by simp [markSolved]
        labels := by
          rintro _ ⟨⟩
          exact ⟨hl.decisions, hl.constraints, hl.objectives⟩ }

theorem WellFormed.after (h : p.WellFormed) (ops : List (Operation α)) :
    (p.after ops).WellFormed := by
  induction ops generalizing p with
  | nil => exact h
  | cons op ops ih => exact ih (h.of_step (step_perform p op))

theorem Reachable.wellFormed (h : p.Reachable) : p.WellFormed := by
  obtain ⟨solver, verbose, ops, rfl⟩ := h
  exact (wellFormed_create solver verbose).after ops

omit [Arithmetic α] in
theorem perform_of_failed_add {op : Operation α} {e : Failure α} (hadd : op.IsAdd)
    (h : (p.perform op).1 = some e) : (p.perform op).2 = p := by
  cases op with
  | addVariable name lower upper group discrete =>
    unfold perform at h ⊢
    dsimp only at h ⊢
    split at h
    · cases h
    · rfl
  | addConstraint expression lower upper name group =>
    unfold perform at h ⊢
    dsimp only at h ⊢
    split at h
    · cases h
    · rfl
  | addObjective expression name group => cases h
  | _ => cases hadd

/-- After every finite sequence of operations a problem is well formed and its views describe its
components; all components that it has had at an earlier time are still there, and an add that fails
changes nothing. -/
theorem wellFormed_after_create (solver : String) (verbose : Bool) (ops : List (Operation α)) :
    let p := (create solver verbose : Problem α).after ops
    p.WellFormed ∧ p.VariablesAligned ∧ p.ConstraintsAligned ∧
      (∀ earlier later, earlier ++ later = ops →
        ((create solver verbose : Problem α).after earlier).Extends p) ∧
      ∀ op e, op.IsAdd → (p.perform op).1 = some e → (p.perform op).2 = p := by
  intro p
  have h : p.WellFormed := Reachable.wellFormed ⟨solver, verbose, ops, rfl⟩
  refine ⟨h, variablesAligned h.decisions, constraintsAligned h.constraints, ?_,
    fun op e => perform_of_failed_add⟩
  rintro earlier later rfl
  show Extends _ ((create solver verbose).after (earlier ++ later))
  rw [after_append]
  exact extends_after _ later

/-- Adds, two of which fail, a start that succeeds, one more variable, and a solve that fails. -/
def story : List (Operation Float) :=
  [.addVariable "x" 0 10 none false, .addVariable "y" 2 1 none false,
    .addConstraint (.sym ⟨"x", 0⟩) 0 5 none (some "g"),
    .addConstraint (.sym ⟨"x", 0⟩) Scalar.nan 5 none none, .takeSymbol "z",
    .addObjective (.sym ⟨"x", 0⟩) none none,
    .start (onSquare [failing [1], finding [3] 3]) 2 (some [0]) fun _ => 0,
    .addVariable "w" 0 1 none true, .setVerbose true, .setSolver "ipopt",
    .solve 1 none fun _ => 0]

theorem wellFormed_after_create_story :
    let p := (create "auglag" false : Problem Float).after story
    (p.WellFormed ∧ p.VariablesAligned ∧ p.ConstraintsAligned ∧
      (∀ earlier later, earlier ++ later = story →
        ((create "auglag" false : Problem Float).after earlier).Extends p) ∧
      ∀ op e, op.IsAdd → (p.perform op).1 = some e → (p.perform op).2 = p) ∧
      p.isSolved = true ∧ p.symbols = [⟨"x", 0⟩, ⟨"w", 2⟩] ∧
      p.solution.map (·.decisions.length) = some 1 :=
  ⟨wellFormed_after_create "auglag" false story, by decide +kernel, by decide +kernel,
    by decide +kernel⟩

end Optima.Problem
