import Optima.Proofs.Trials.Invocations
import Optima.Proofs.Trials.Selection

/-!
Whether every guess has one entry for each decision variable, and every solution one row for each
component, whatever engine is used.

An engine may return points and multipliers of any length. After a failure the next guess is cut or
filled up to the dimension of the problem. After a success it is the point that was returned, and so
are the values of the decision variables.

* `forall_length_guess_iff`: every guess has the right length if and only if every success that is
  followed by another trial has a point of the right length.
* `Solver.OneEntryEach`: the guesses and the solution of a start are complete.
* `oneEntryEach_iff`: a start is complete as far as the points of its successes are, and all rows
  but those of the decision variables are complete in any case; `not_oneEntryEach`: a point can be
  too short.
-/

namespace Optima

variable {α σ : Type} [Scalar α] [Printable α]

namespace Trials

variable {engine : Engine α σ} {setting : Setting α} {count : Nat} {state : σ} {first : List α}

/-- Each success that is followed by another trial has a point of the right length. -/
def HandsOn (n : Nat) (trials : List (Trial α)) : Prop :=
  ∀ k t, trials[k]? = some t → k + 1 < trials.length → t.output.success = true →
    t.output.point.length = n

theorem length_guess_succ {index k : Nat} {t t' : Trial α}
    (ht : (run engine setting count index state first).value[k]? = some t)
    (ht' : (run engine setting count index state first).value[k + 1]? = some t') :
    t'.invocation.guess.length = setting.dimension ↔
      (t.output.success = true → t.output.point.length = setting.dimension) := by
  rw [guess_succ_run ht ht']
  cases hsuccess : t.output.success with
  | true =>
    rw [Guess.following, if_pos hsuccess]
    exact ⟨fun h _ => h, fun h => h rfl⟩
  | false =>
    have hlength := Guess.length_following_of_failure setting.dimension t.output hsuccess
    exact ⟨fun _ h => absurd h Bool.false_ne_true, fun _ => hlength⟩

theorem forall_length_guess_iff {index : Nat} (hfirst : first.length = setting.dimension) :
    (∀ t ∈ (run engine setting count index state first).value,
      t.invocation.guess.length = setting.dimension) ↔
      HandsOn setting.dimension (run engine setting count index state first).value := by
  constructor
  · intro hall k t ht hk
    have hnext := List.getElem?_eq_getElem hk
    exact (length_guess_succ ht hnext).1 (hall _ (List.getElem_mem hk))
  · intro hhands t ht
    obtain ⟨k, hk⟩ := List.mem_iff_getElem?.1 ht
    cases k with
    | zero => rw [guess_zero_run hk, hfirst]
    | succ k =>
      have hlt := (List.getElem?_eq_some_iff.1 hk).1
      have hbefore := List.getElem?_eq_getElem (Nat.lt_of_succ_lt hlt)
      exact (length_guess_succ hbefore hk).2 (hhands k _ hbefore hlt)

end Trials

namespace Solver

/-- The solution from the trial at place `k` has one row for each component, in the order of the
problem. -/
def OneRowEach (p : Problem α) (start : Start α σ) (k : Nat) : Prop :=
  ∃ t q solution, Found start k t q solution ∧
    solution.decisions.map Row.label = p.decisions.map Component.label ∧
    solution.constraints.map Row.label = p.constraints.map Component.label ∧
    solution.objectives.map Row.label = p.objectives.map Component.label

/-- Every guess has one entry for each decision variable, and a solution one row for each
component. -/
structure OneEntryEach (p : Problem α) (start : Start α σ) : Prop where
  guesses : ∀ t ∈ start.trials, t.invocation.guess.length = p.decisions.length
  rows : ∀ r k, start.report = .ok r → r.best = some k → OneRowEach p start k

/-- Successes that are followed by another trial have points of the right length, and the best one
has a point that is long enough. -/
def Sufficient (p : Problem α) (start : Start α σ) : Prop :=
  Trials.HandsOn p.decisions.length start.trials ∧
    ∀ r k t, start.report = .ok r → r.best = some k → start.trials[k]? = some t →
      p.decisions.length ≤ t.output.point.length

variable {s : Solver α σ} {p : Problem α} {count : Nat} {state : σ} {first : List α}
  {start : Start α σ}

theorem guesses_iff_of_concluded (hw : p.WellFormed) (hfirst : first.length = p.symbols.length)
    (h : Concluded s p (s.trialsFrom p count state first).value start) :
    (∀ t ∈ start.trials, t.invocation.guess.length = p.decisions.length) ↔
      Trials.HandsOn p.decisions.length start.trials := by
  have hdimension : first.length = (settingOf p count).dimension := hfirst
  rw [h.trials_eq, ← Problem.length_symbols hw.decisions]
  exact Trials.forall_length_guess_iff hdimension

omit [Scalar α] [Printable α] in
theorem Found.unique {k : Nat} {t t' : Trial α} {q q' : Problem α} {solution solution' : Solution α}
    (h : Found start k t q solution) (h' : Found start k t' q' solution') :
    t = t' ∧ solution = solution' := by
  have hproblem := h.problem_eq.symm.trans h'.problem_eq
  cases hproblem
  exact ⟨Option.some.inj (h.at_place.symm.trans h'.at_place),
    Option.some.inj (h.solution_eq.symm.trans h'.solution_eq)⟩

/-- The solution has all its rows if and only if the point it has been read off is long enough. -/
theorem oneRowEach_iff_of_concluded
    (h : Concluded s p (s.trialsFrom p count state first).value start) {r : TrialReport α} {k : Nat}
    (hr : start.report = .ok r) (hk : r.best = some k) :
    OneRowEach p start k ↔
      ∀ t, start.trials[k]? = some t → p.decisions.length ≤ t.output.point.length := by
  obtain ⟨t, q, solution, hfound, hextract⟩ := found_of_concluded h hr hk
  have hrows := rowsUpTo_of_extract hextract
  constructor
  · rintro ⟨t', q', solution', hfound', hdecisions, -⟩ t'' ht''
    obtain ⟨rfl, rfl⟩ := hfound.unique hfound'
    cases hfound.at_place.symm.trans ht''
    exact hrows.decisions_eq_iff.1 hdecisions
  · intro hlength
    exact ⟨t, q, solution, hfound, hrows.decisions_eq_iff.2 (hlength t hfound.at_place),
      hrows.constraints, hrows.objectives⟩

variable [Arithmetic α]

/-- Whatever engine is used, and whatever the lengths of its points and multipliers: the guesses and
the solution of a start are complete if and only if each success that is followed by another trial
has a point with one coordinate for each decision variable, and the best one a point with as many at
least. Constraints and objectives have one row each in any case; if there are any, the best point
has one coordinate for each decision variable. -/
theorem oneEntryEach_iff (s : Solver α σ) (hp : s.problem = some p) (hreachable : p.Reachable)
    (count : Nat) (guess : Option (List α)) (draws : Nat → α) :
    (OneEntryEach p (s.start count guess draws).value ↔
      Sufficient p (s.start count guess draws).value) ∧
    ∀ r k, (s.start count guess draws).value.report = .ok r → r.best = some k →
      ∃ t q solution, Found (s.start count guess draws).value k t q solution ∧
        solution.RowsUpTo p t.output.point.length ∧
        (p.constraints ≠ [] ∨ p.objectives ≠ [] →
          t.output.point.length = p.decisions.length) := by
  have hw := hreachable.wellFormed
  have hstarted := started_start s count guess draws
  generalize (s.start count guess draws).value = start at hstarted ⊢
  cases hstarted with
  | refused e =>
    exact ⟨⟨fun _ => ⟨nofun, nofun⟩, fun _ => ⟨nofun, nofun⟩⟩, nofun⟩
  | ran hcount hq hprepare hstart =>
    rw [hp] at hq
    cases hq
    have hguesses := guesses_iff_of_concluded hw
      (length_of_firstGuess hw (prepare_eq_ok.1 hprepare).1) hstart
    refine ⟨⟨fun h => ⟨hguesses.1 h.guesses, ?_⟩, fun h => ⟨hguesses.2 h.1, ?_⟩⟩, ?_⟩
    · exact fun r k t hr hk => (oneRowEach_iff_of_concluded hstart hr hk).1 (h.rows r k hr hk) t
    · exact fun r k hr hk => (oneRowEach_iff_of_concluded hstart hr hk).2 fun t => h.2 r k t hr hk
    · intro r k hr hk
      obtain ⟨t, q, solution, hfound, hextract⟩ := found_of_concluded hstart hr hk
      exact ⟨t, q, solution, hfound, rowsUpTo_of_extract hextract, fun hne =>
        (Problem.length_of_extract hextract hne).trans (Problem.length_symbols hw.decisions)⟩

theorem reachable_square : square.Reachable :=
  ⟨"auglag", false, [.addVariable "x" 0 10 none false, .addVariable "y" 0 10 none false], rfl⟩

/-- Too many and too few multipliers do no harm. -/
theorem oneEntryEach_iff_stumbling :
    OneEntryEach square ((onSquare stumbling).start 4 (some [0, 0]) fun _ => 0).value ∧
      ∃ r, ((onSquare stumbling).start 4 (some [0, 0]) fun _ => 0).value.report = .ok r ∧
        r.best = some 3 := by
  refine ⟨(oneEntryEach_iff (onSquare stumbling) rfl reachable_square 4 (some [0, 0]) _).1.2
    ⟨?_, ?_⟩, _, rfl, by decide +kernel⟩
  · intro k t ht hk hsuccess
    have hlt : k < 3 := Nat.lt_of_succ_lt_succ hk
    interval_cases k
    · cases ht
      cases hsuccess
    · cases ht
      cases hsuccess
    · cases ht
      rfl
  · intro r k t hr hk ht
    cases hr
    have hplace : some 3 = some k := hk
    cases hplace
    cases ht
    exact Nat.le_refl _

/-- A success with a point that lacks a coordinate, twice. -/
def narrow : Start Float (List (Output Float)) :=
  ((onSquare [finding [1] 1, finding [1] 1]).start 2 (some [0, 0]) fun _ => 0).value

/-- The second guess lacks an entry, and the solution a row. -/
theorem not_oneEntryEach :
    ¬ OneEntryEach square narrow ∧
      (∃ t, narrow.trials[1]? = some t ∧ t.invocation.guess.length = 1) ∧
      ∃ r t q solution, narrow.report = .ok r ∧ r.best = some 0 ∧
        Found narrow 0 t q solution ∧ solution.decisions.length = 1 := by
  refine ⟨fun h => ?_, ⟨_, rfl, rfl⟩, _, _, _, _, rfl, ?_, ⟨rfl, rfl, rfl, rfl, rfl⟩, rfl⟩
  · have hguess := h.guesses _ (List.mem_of_getElem? (i := 1) rfl)
    cases hguess
  · decide +kernel

end Solver

end Optima
