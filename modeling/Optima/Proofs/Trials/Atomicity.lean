import Optima.Proofs.Trials.Readable

/-!
A start that fails has done nothing.

* `Solver.Refusal`: why a start is refused, with the checks in their order; `refusal_or_prepared`:
  a start that is not refused is prepared.
* `start_eq_of_refusal`: a refused start changes nothing, invokes nothing and says nothing.
* `exists_report_of_prepared`: a prepared start of the augmented Lagrangian method does not fail,
  since a solution can be read off the point of every success.
* `Problem.Refusal`: why solving a problem with its own solver is refused.
* `start_atomic`: the failures of a start, and of solving a problem, are their refusals.
-/

namespace Optima

variable {α σ : Type} [Scalar α]

namespace Solver

/-! ## Refusals -/

/-- Why a start is refused. Each reason presupposes that the ones before it do not apply. -/
inductive Refusal (s : Solver α σ) (count : Nat) (guess : Option (List α)) : Failure α → Prop
  | noTrials (hcount : count = 0) : Refusal s count guess .noTrials
  | detached (hcount : count ≠ 0) (hp : s.problem = none) : Refusal s count guess .detached
  | guessLength {p : Problem α} {g : List α} (hcount : count ≠ 0) (hp : s.problem = some p)
      (hguess : guess = some g) (hlength : g.length ≠ p.symbols.length) :
      Refusal s count guess (.guessLength p.symbols.length g.length)
  | engine {p : Problem α} {e : EngineError α} (hcount : count ≠ 0) (hp : s.problem = some p)
      (hguess : ∀ g, guess = some g → g.length = p.symbols.length)
      (hstate : s.engine.instantiate p.program p.options = .error e) :
      Refusal s count guess (.engine e)

/-- Nothing speaks against a start. -/
structure Prepared (s : Solver α σ) (count : Nat) (guess : Option (List α)) (draws : Nat → α)
    (p : Problem α) (first : List α) (state : σ) : Prop where
  count_ne : count ≠ 0
  problem_eq : s.problem = some p
  prepare_eq : prepare s.engine p guess draws = .ok (first, state)

variable {s : Solver α σ} {count : Nat} {guess : Option (List α)} {draws : Nat → α}
  {p : Problem α} {e : Failure α}

theorem firstGuess_eq_error {g : List α} (h : g.length ≠ p.symbols.length) :
    firstGuess p (some g) draws = .error (.guessLength p.symbols.length g.length) := if_neg h

theorem prepare_of_firstGuess_error (h : firstGuess p guess draws = .error e) :
    prepare s.engine p guess draws = .error e := by
  rw [prepare, h]
  rfl

theorem prepare_of_engine_error {first : List α} {e : EngineError α}
    (hfirst : firstGuess p guess draws = .ok first)
    (hstate : s.engine.instantiate p.program p.options = .error e) :
    prepare s.engine p guess draws = .error (.engine e) := by
  unfold prepare
  rw [hfirst, hstate]
  rfl

/-- The checks are gone through in their order. -/
theorem refusal_or_prepared (s : Solver α σ) (count : Nat) (guess : Option (List α))
    (draws : Nat → α) :
    (∃ e, Refusal s count guess e) ∨
      ∃ p first state, Prepared s count guess draws p first state := by
  by_cases hcount : count = 0
  · exact .inl ⟨_, .noTrials hcount⟩
  cases hp : s.problem with
  | none => exact .inl ⟨_, .detached hcount hp⟩
  | some p =>
    by_cases hguess : ∀ g, guess = some g → g.length = p.symbols.length
    · obtain ⟨first, hfirst⟩ := exists_firstGuess draws hguess
      cases hstate : s.engine.instantiate p.program p.options with
      | error e => exact .inl ⟨_, .engine hcount hp hguess hstate⟩
      | ok state => exact .inr ⟨p, first, state, hcount, hp, prepare_eq_ok.2 ⟨hfirst, hstate⟩⟩
    · simp only [not_forall] at hguess
      obtain ⟨g, hg, hlength⟩ := hguess
      exact .inl ⟨_, .guessLength hcount hp hg hlength⟩

variable [Printable α]

theorem start_eq_of_prepare_error (hcount : count ≠ 0) (hp : s.problem = some p)
    (h : prepare s.engine p guess draws = .error e) :
    s.start count guess draws = pure ⟨.error e, s, []⟩ := by
  rw [start, if_neg hcount, hp]
  dsimp only
  rw [h]

/-- A refused start leaves the solver and its problem as they are. No trial runs, and nothing is
said. -/
theorem start_eq_of_refusal (h : Refusal s count guess e) :
    s.start count guess draws = pure ⟨.error e, s, []⟩ := by
  cases h with
  | noTrials hcount => rw [start, if_pos hcount]
  | detached hcount hp => rw [start, if_neg hcount, hp]
  | guessLength hcount hp hguess hlength =>
    subst hguess
    exact start_eq_of_prepare_error hcount hp
      (prepare_of_firstGuess_error (firstGuess_eq_error hlength))
  | engine hcount hp hguess hstate =>
    obtain ⟨first, hfirst⟩ := exists_firstGuess draws hguess
    exact start_eq_of_prepare_error hcount hp (prepare_of_engine_error hfirst hstate)

/-! ## Prepared starts -/

theorem concluded_of_prepared {first : List α} {state : σ}
    (h : Prepared s count guess draws p first state) :
    Concluded s p (s.trialsFrom p count state first).value (s.start count guess draws).value := by
  rw [start_eq_of_prepare h.count_ne h.problem_eq h.prepare_eq, Logged.value_bind]
  exact concluded_conclude ..

section

variable {s : Solver α (Lagrangian.Handle α)} {h : Lagrangian.Handle α} {first : List α}

/-- A solution can be read off every success of the method. -/
theorem exists_extract_of_success (hs : s.engine = Lagrangian.engine)
    (hstate : s.engine.instantiate p.program p.options = .ok h) {t : Trial α}
    (ht : t ∈ (s.trialsFrom p count h first).value) (hsuccess : t.output.success = true) :
    ∃ solution, p.extract t.output.point = .ok solution := by
  rw [hs] at hstate
  have hc := Lagrangian.Handle.compiles_of_instantiate hstate
  exact Problem.exists_extract (Problem.readable_of_compiles hc)
    (success_trialsFrom hs hc ht hsuccess).1

/-- The best trial is a success, so that a solution can be read off its point. -/
theorem exists_report_of_prepared (hs : s.engine = Lagrangian.engine)
    (hprepared : Prepared s count guess draws p first h) :
    ∃ r, (s.start count guess draws).value.report = .ok r := by
  have hconcluded := concluded_of_prepared hprepared
  generalize (s.start count guess draws).value = start at hconcluded
  cases hconcluded with
  | exhausted hbest => exact ⟨_, rfl⟩
  | unreadable hbest hextract =>
    obtain ⟨ht, hsuccess⟩ := Trials.mem_of_best hbest
    obtain ⟨solution, hsolution⟩ := exists_extract_of_success hs
      (prepare_eq_ok.1 hprepared.prepare_eq).2 ht hsuccess
    rw [hsolution] at hextract
    cases hextract
  | solved hbest hextract => exact ⟨_, rfl⟩

theorem report_eq_error_iff (hs : s.engine = Lagrangian.engine) :
    (s.start count guess draws).value.report = .error e ↔ Refusal s count guess e := by
  constructor
  · intro he
    rcases refusal_or_prepared s count guess draws with ⟨e', h⟩ | ⟨p, first, state, h⟩
    · rw [start_eq_of_refusal h] at he
      cases he
      exact h
    · obtain ⟨r, hr⟩ := exists_report_of_prepared hs h
      rw [hr] at he
      cases he
  · intro h
    rw [start_eq_of_refusal h]
    rfl

theorem exists_extract_of_mem_start (hs : s.engine = Lagrangian.engine) (hp : s.problem = some p)
    {t : Trial α} (ht : t ∈ (s.start count guess draws).value.trials)
    (hsuccess : t.output.success = true) :
    ∃ solution, p.extract t.output.point = .ok solution := by
  rcases refusal_or_prepared s count guess draws with ⟨e', hrefusal⟩ | ⟨q, first, state, hprepared⟩
  · rw [start_eq_of_refusal hrefusal] at ht
    cases ht
  · have hq := hprepared.problem_eq
    rw [hp] at hq
    cases hq
    rw [(concluded_of_prepared hprepared).trials_eq] at ht
    exact exists_extract_of_success hs (prepare_eq_ok.1 hprepared.prepare_eq).2 ht hsuccess

end

end Solver

/-! ## Solving a problem with its own solver -/

namespace Problem

open Solver (refusal_or_prepared start_eq_of_refusal exists_report_of_prepared)

variable [Printable α] {count : Nat} {guess : Option (List α)} {draws : Nat → α} {p : Problem α}
  {e : Failure α}

/-- What is said before the solver is looked up. -/
def opening (p : Problem α) : Logged Unit :=
  Logged.sayIf p.verbose .debug ("Using " ++ p.solver ++ " solver, options: " ++ p.options.describe)

/-- Why solving a problem is refused: its solver is not known, or refuses the start. -/
inductive Refusal (p : Problem α) (count : Nat) (guess : Option (List α)) : Failure α → Prop
  | unsupported (h : Family.ofName? p.solver = none) :
      Refusal p count guess (.unsupported p.solver)
  | start {family : Family} {e : Failure α} (h : Family.ofName? p.solver = some family)
      (hrefusal : ((Solver.ofFamily family).attach p).Refusal count guess e) :
      Refusal p count guess e

theorem solve_of_unsupported (count : Nat) (guess : Option (List α)) (draws : Nat → α)
    (h : Family.ofName? p.solver = none) :
    p.solve count guess draws =
      (do opening p; return (.error (.unsupported p.solver), p)) := by
  unfold Problem.solve
  rw [h]
  rfl

theorem solve_of_refusal {family : Family} (h : Family.ofName? p.solver = some family)
    (hrefusal : ((Solver.ofFamily family).attach p).Refusal count guess e) :
    p.solve count guess draws = (do opening p; return (.error e, p)) := by
  unfold Problem.solve
  rw [h]
  dsimp only
  rw [start_eq_of_refusal hrefusal]
  rfl

theorem solve_ok_of_report {family : Family} (h : Family.ofName? p.solver = some family)
    {r : TrialReport α}
    (hr : (((Solver.ofFamily family).attach p).start count guess draws).value.report = .ok r) :
    ∃ solution, (p.solve count guess draws).value.1 = .ok solution := by
  unfold Problem.solve
  rw [Logged.value_bind, h]
  dsimp only
  rw [Logged.value_bind, hr]
  exact ⟨_, rfl⟩

theorem solve_eq_of_refusal (h : p.Refusal count guess e) :
    p.solve count guess draws = (do opening p; return (.error e, p)) := by
  cases h with
  | unsupported h => exact solve_of_unsupported count guess draws h
  | start h hrefusal => exact solve_of_refusal h hrefusal

theorem solve_eq_error_iff :
    (p.solve count guess draws).value.1 = .error e ↔ p.Refusal count guess e := by
  constructor
  · intro he
    cases hfamily : Family.ofName? p.solver with
    | none =>
      rw [solve_of_unsupported count guess draws hfamily] at he
      cases he
      exact .unsupported hfamily
    | some family =>
      cases family with
      | augmentedLagrangian =>
        rcases refusal_or_prepared ((Solver.ofFamily .augmentedLagrangian).attach p) count guess
          draws with ⟨e', h⟩ | ⟨q, first, state, h⟩
        · rw [solve_of_refusal hfamily h] at he
          cases he
          exact .start hfamily h
        · obtain ⟨r, hr⟩ := exists_report_of_prepared rfl h
          obtain ⟨solution, hok⟩ := solve_ok_of_report hfamily hr
          rw [hok] at he
          cases he
  · intro h
    rw [solve_eq_of_refusal h]
    rfl

end Problem

/-! ## All or nothing -/

namespace Solver

variable [Printable α]

/-- The failures of a start of the augmented Lagrangian method, and of solving a problem, are their
refusals. A failure leaves the solver and the problem as they were, no trial has run, and nothing
but the opening has been said. Once the method is instantiated, a solution can be read off every
point of the right dimension, and off the point of every trial that succeeds. -/
theorem start_atomic (s : Solver α (Lagrangian.Handle α)) (hs : s.engine = Lagrangian.engine)
    (p : Problem α) (count : Nat) (guess : Option (List α)) (draws : Nat → α) :
    (∀ e, (s.start count guess draws).value.report = .error e ↔ s.Refusal count guess e) ∧
    (∀ e, (s.start count guess draws).value.report = .error e →
      s.start count guess draws = pure ⟨.error e, s, []⟩) ∧
    (∀ e, (p.solve count guess draws).value.1 = .error e ↔ p.Refusal count guess e) ∧
    (∀ e, (p.solve count guess draws).value.1 = .error e →
      p.solve count guess draws = (do p.opening; return (.error e, p))) ∧
    ∀ q h, s.problem = some q → s.engine.instantiate q.program q.options = .ok h →
      (∀ point, point.length = q.symbols.length → ∃ solution, q.extract point = .ok solution) ∧
      ∀ t ∈ (s.start count guess draws).value.trials, t.output.success = true →
        ∃ solution, q.extract t.output.point = .ok solution := by
  refine ⟨fun e => report_eq_error_iff hs, fun e he => ?_, fun e => Problem.solve_eq_error_iff,
    fun e he => Problem.solve_eq_of_refusal (Problem.solve_eq_error_iff.1 he),
    fun q h hq hstate => ⟨?_, ?_⟩⟩
  · exact start_eq_of_refusal ((report_eq_error_iff hs).1 he)
  · intro point hpoint
    rw [hs] at hstate
    exact Problem.exists_extract
      (Problem.readable_of_compiles (Lagrangian.Handle.compiles_of_instantiate hstate)) hpoint
  · intro t ht hsuccess
    exact exists_extract_of_mem_start hs hq ht hsuccess

/-- A problem that has been solved before its objective came to mention a symbol of another one. -/
def strange : Problem Float :=
  { square with
    objectives := [.objective (.sym ⟨"z", 9⟩) (some "f") none]
    isSolved := true
    solution := some ⟨[], [], []⟩ }

def overStrange : Solver Float (Lagrangian.Handle Float) :=
  ⟨.augmentedLagrangian, Lagrangian.engine, some strange, some (finding [1, 2] 3)⟩

/-- The solver keeps its output, and the problem its solution. -/
theorem start_atomic_strange :
    overStrange.start 1 none (fun _ => 0) =
        pure ⟨.error (.engine (.expression (.unbound "z"))), overStrange, []⟩ ∧
      strange.solve 1 none (fun _ => 0) =
        (do strange.opening; return (.error (.engine (.expression (.unbound "z"))), strange)) := by
  obtain ⟨hstart, hkept, hsolve, hsame, -⟩ :=
    start_atomic overStrange rfl strange 1 none fun _ => 0
  have hstate : Lagrangian.engine.instantiate strange.program strange.options =
      .error (.expression (.unbound "z")) := by rfl
  have hfamily : Family.ofName? strange.solver = some .augmentedLagrangian := by rfl
  exact ⟨hkept _ ((hstart _).2 (.engine (by decide) rfl nofun hstate)),
    hsame _ ((hsolve _).2 (.start hfamily (.engine (by decide) rfl nofun hstate)))⟩

end Solver

end Optima
