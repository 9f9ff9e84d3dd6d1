import Optima.Proofs.Scalar.Double.Identities
import Optima.Proofs.Trials.Readable
import Optima.Proofs.Trials.Selection

/-!
The objective values of a solution add up to the objective that the engine has minimized.

One side folds expressions, starting at the constant zero, the other one adds values, starting at
negative zero. Both add from the left.

* `objectiveSum_eq`: the sum over the rows of a solution, by means of the expressions.
* `agrees_objectiveSum`: it agrees with the value of the folded sum of the objectives.
* `objectiveSum_agrees`: so it does at every point, and with the objective of the selected trial
  after every start that has found a solution.
-/

namespace Optima

open Scalar (Agrees)

variable {α : Type} [Scalar α] {p : Problem α} {point : List α} {solution : Solution α}

/-! ## One point -/

theorem map_number_of_forall₂ {symbols : List Symbol} {components : List (Component α)}
    {rows : List (Row α)}
    (h : List.Forall₂ (fun c row => ∃ v, Problem.evaluateAt symbols point c = .ok v ∧
      row = c.objectiveRow v) components rows) :
    rows.map Row.number =
      (components.map Component.expression).map (Expr.eval (assignment symbols point)) := by
  induction h with
  | nil => rfl
  | @cons c row components rows hrow _ ih =>
    obtain ⟨v, hv, rfl⟩ := hrow
    have heval := (Problem.evaluateAt_eq_ok_iff.1 hv).2.2
    rw [List.map_cons, List.map_cons, List.map_cons, ih, heval]
    rfl

theorem objectiveSum_eq (h : p.extract point = .ok solution) :
    solution.objectiveSum none =
      Scalar.sum ((p.objectives.map Component.expression).map
        (Expr.eval (assignment p.symbols point))) := by
  rw [Solution.objectiveSum, Row.listed, Row.select_none,
    map_number_of_forall₂ (extracted_of_extract h).objectives]

theorem agrees_objectiveSum [Summation α] (h : p.extract point = .ok solution) :
    Agrees (solution.objectiveSum none) (p.objectiveExpr.eval (assignment p.symbols point)) := by
  rw [objectiveSum_eq h]
  exact agrees_symm (Expr.agrees_eval_sum _ _)

/-! ## Starts -/

namespace Solver

variable [Summation α] [Printable α] {s : Solver α (Lagrangian.Handle α)} {count : Nat}

/-- The objective values of the solution of a start add up to the objective of its output. -/
def SumSelected (start : Start α (Lagrangian.Handle α)) (k : Nat) : Prop :=
  ∃ t q solution, Found start k t q solution ∧
    Agrees (solution.objectiveSum none) t.output.objective

theorem sumSelected_of_concluded {h : Lagrangian.Handle α} {first : List α}
    (hs : s.engine = Lagrangian.engine) (hc : h.model.Compiles p.program)
    {start : Start α (Lagrangian.Handle α)}
    (hstart : Concluded s p (s.trialsFrom p count h first).value start)
    {r : TrialReport α} {k : Nat} (hr : start.report = .ok r) (hk : r.best = some k) :
    SumSelected start k := by
  obtain ⟨t, q, solution, hfound, hextract⟩ := found_of_concluded hstart hr hk
  have ht := List.mem_of_getElem? hfound.at_place
  rw [hstart.trials_eq] at ht
  obtain ⟨hpoint, hobjective⟩ := success_trialsFrom hs hc ht hfound.success
  refine ⟨t, q, solution, hfound, ?_⟩
  rw [hobjective, Lagrangian.valueAt, call_of_compile hc.objective hpoint]
  exact agrees_objectiveSum hextract

/-- Whatever the objectives of a problem are, as long as they mention nothing but its decision
variables: at every point with a coordinate for each of these the compiled objective has a value,
and the objective values of a solution that is read off there add up to it, but for the sign of a
zero. After every start of the augmented Lagrangian method that has found a solution, they add up to
the objective of the selected output. -/
theorem objectiveSum_agrees (p : Problem α)
    (hobjectives : ∀ c ∈ p.objectives, c.expression.occurrences ⊆ p.symbols) :
    (∃ f, Function.compile p.program.decisions p.program.objective = .ok f ∧
      ∀ point, point.length = p.symbols.length → ∃ v, f.call point = .ok v ∧
        (∀ solution, p.extract point = .ok solution → Agrees (solution.objectiveSum none) v) ∧
        ((∀ c ∈ p.constraints, c.expression.occurrences ⊆ p.symbols) →
          ∃ solution, p.extract point = .ok solution)) ∧
    ∀ (s : Solver α (Lagrangian.Handle α)), s.engine = Lagrangian.engine → s.problem = some p →
      ∀ count guess draws r k, (s.start count guess draws).value.report = .ok r →
        r.best = some k → SumSelected (s.start count guess draws).value k := by
  constructor
  · obtain ⟨f, hf⟩ := exists_compile_iff.2 (Problem.objectives_subset_iff.1 hobjectives)
    refine ⟨f, hf, fun point hpoint => ⟨_, call_of_compile hf hpoint, ?_, ?_⟩⟩
    · exact fun solution h => agrees_objectiveSum h
    · exact fun hconstraints => Problem.exists_extract ⟨hconstraints, hobjectives⟩ hpoint
  · intro s hs hp count guess draws r k hr hk
    have hstarted := started_start s count guess draws
    generalize (s.start count guess draws).value = start at hstarted hr
    cases hstarted with
    | refused e => cases hr
    | ran hcount hq hprepare hstart =>
      rw [hp] at hq
      cases hq
      rw [hs] at hprepare
      exact sumSelected_of_concluded hs
        (Lagrangian.Handle.compiles_of_instantiate (prepare_eq_ok.1 hprepare).2) hstart hr hk

/-- The variable between 1 and 10 again, with constants added to it on both sides. -/
def padded : Problem Float :=
  { onFloor with
    objectives := [.objective (.const (-0)) none none, .objective (.sym ⟨"x", 0⟩) none none,
      .objective (.const 0.1) none none, .objective (.const 0.2) none none] }

def overPadded : Solver Float (Lagrangian.Handle Float) :=
  ⟨.augmentedLagrangian, Lagrangian.engine, some padded, none⟩

theorem objectiveSum_agrees_padded :
    (∀ c ∈ padded.objectives, c.expression.occurrences ⊆ padded.symbols) ∧
      (∃ solution v, padded.extract [2] = .ok solution ∧
        Agrees (solution.objectiveSum none) v) ∧
      ∃ k, SumSelected (overPadded.start 1 none fun _ => 0).value k := by
  have hobjectives : ∀ c ∈ padded.objectives, c.expression.occurrences ⊆ padded.symbols := by
    decide
  obtain ⟨⟨f, -, hpoint⟩, hstart⟩ := objectiveSum_agrees padded hobjectives
  obtain ⟨v, -, hsum, hextract⟩ := hpoint [2] rfl
  obtain ⟨solution, hsolution⟩ := hextract (by decide)
  obtain ⟨r, hr, hbest⟩ := exists_eq_ok_of_any
    (x := (overPadded.start 1 none fun _ => 0).value.report) (p := fun r => r.best.isSome)
    (by decide +kernel)
  obtain ⟨k, hk⟩ := Option.isSome_iff_exists.1 hbest
  exact ⟨hobjectives, ⟨solution, v, hsolution, hsum solution hsolution⟩,
    k, hstart overPadded rfl rfl 1 none (fun _ => 0) r k hr hk⟩

end Solver

end Optima
