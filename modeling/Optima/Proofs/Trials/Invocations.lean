import Optima.Proofs.Lagrangian.Outputs
import Optima.Proofs.Problem.Lifetime
import Optima.Proofs.Trials.WarmStart

/-!
What the augmented Lagrangian method is asked for by the trials of a problem, and what it answers.

* `wellFormed_of_valid`: the method's output for a valid invocation.
* `fault?_invocation`: a guess of the right length makes a valid invocation, with the bounds of a
  well-formed problem.
* `Answered`: an invocation is valid and its output well formed; `answered_trialsFrom`: that is so in
  every trial, since an output leads to a guess of the right length.
* `Solution.Within`: the decision variables of a solution keep their bounds.
* `wellPosed_start`: all of it for every start of a problem.
-/

namespace Optima

variable {α σ : Type} [Scalar α]

/-! ## One invocation of the method -/

namespace Lagrangian

theorem Handle.compiles_of_instantiate {program : Program α} {options : Options α} {h : Handle α}
    (hh : Handle.instantiate program options = .ok h) : h.model.Compiles program := by
  unfold Handle.instantiate at hh
  split at hh
  · unfold Handle.compile at hh
    split at hh
    · next model hmodel =>
      cases hh
      exact Model.compiles_of_compile hmodel
    · cases hh
  · cases hh

variable [Arithmetic α] {program : Program α} {model : Model α} {inv : Invocation α}

theorem wellFormed_of_valid (hc : model.Compiles program) (s : Settings α)
    (hv : inv.fault? program.decisions.length program.constraints.length = none) :
    WellFormed program.decisions.length program.constraints.length s inv
      (solve model s inv).1 := by
  have hcount : model.constraintCount = program.constraints.length :=
    hc.constraints.length_eq.symm
  have hfault : inv.fault? model.size model.constraintCount = none := by
    rw [hc.size_eq, hcount, hv]
  exact wellFormed_of_ends (ends_solve hc s hfault) hc.gradient.length_eq.symm hcount hv

end Lagrangian

/-! ## Valid invocations -/

namespace Problem

variable {p : Problem α} {guess : List α}

theorem valid_boxOf {components : List (Component α)} (h : ∀ c ∈ components, c.Bounded) :
    (boxOf components).Valid components.length where
  length_lower := List.length_map ..
  length_upper := List.length_map ..
  ordered := by
    intro bounds hbounds
    rw [boxOf, List.zip_map', List.mem_map] at hbounds
    obtain ⟨c, hc, rfl⟩ := hbounds
    exact h c hc

theorem fault?_invocation [Printable α] [Ordered α] (h : p.WellFormed) (count : Nat)
    (hg : guess.length = p.program.decisions.length) :
    ((Solver.settingOf p count).invocation guess).fault? p.program.decisions.length
      p.program.constraints.length = none := by
  have hn : p.program.decisions.length = p.decisions.length := length_symbols h.decisions
  have hm : p.program.constraints.length = p.constraints.length := List.length_map ..
  rw [Invocation.fault?_eq_none_iff, hn, hm]
  exact ⟨hg.trans hn, valid_boxOf h.bounded_decisions, valid_boxOf h.bounded_constraints⟩

end Problem

theorem Guess.length_sample (components : List (Component α)) (draws : Nat → α) :
    (Guess.sample (Problem.boxOf components) draws).length = components.length := by
  simp [sample, Problem.boxOf]

theorem Guess.forall_mem_fit {P : α → Prop} (n : Nat) {values : List α} (h : ∀ x ∈ values, P x)
    (hzero : P 0) : ∀ x ∈ fit n values, P x := by
  intro x hx
  rw [fit_eq, List.mem_append] at hx
  rcases hx with hx | hx
  · exact h x (List.mem_of_mem_take hx)
  · rw [List.eq_of_mem_replicate hx]
    exact hzero

theorem Guess.length_following {n m : Nat} {s : Lagrangian.Settings α} {inv : Invocation α}
    {out : Output α} (h : Lagrangian.WellFormed n m s inv out) : (following n out).length = n := by
  by_cases hs : out.success = true
  · rw [following, if_pos hs]
    exact h.length_point
  · exact length_following_of_failure n out (Bool.not_eq_true _ ▸ hs)

/-! ## The trials of a problem -/

/-- The invocation of the trial is valid for the program, and its output is well formed. -/
structure Answered (program : Program α) (s : Lagrangian.Settings α) (t : Trial α) : Prop where
  fault?_eq : t.invocation.fault? program.decisions.length program.constraints.length = none
  output : Lagrangian.WellFormed program.decisions.length program.constraints.length s
    t.invocation t.output

namespace Answered

variable {program : Program α} {s : Lagrangian.Settings α} {t : Trial α}

theorem status_ne [Ordered α] (h : Answered program s t) : t.output.status ≠ .invalidInput :=
  h.output.valid_iff.2 (Invocation.fault?_eq_none_iff.1 h.fault?_eq)

/-- The next guess is a point of the box after a success, and consists of finite numbers after a
failure. -/
theorem following [Arithmetic α] (h : Answered program s t) :
    t.invocation.decisions.Contains (Guess.following program.decisions.length t.output) ∨
      ∀ x ∈ Guess.following program.decisions.length t.output, Scalar.isFinite x = true := by
  unfold Guess.following
  split
  · exact .inl (h.output.contains h.status_ne)
  · exact .inr (Guess.forall_mem_fit _ h.output.boundMultipliers_finite Arithmetic.isFinite_zero)

end Answered

variable [Printable α]

namespace Solver

variable {s : Solver α (Lagrangian.Handle α)} {p : Problem α} {h : Lagrangian.Handle α}
  {guess : Option (List α)} {draws : Nat → α} {first : List α}
  {count : Nat}

omit [Printable α] in
theorem length_of_firstGuess (hw : p.WellFormed) (h : firstGuess p guess draws = .ok first) :
    first.length = p.program.decisions.length := by
  unfold firstGuess at h
  cases guess with
  | none =>
    cases h
    exact (Guess.length_sample ..).trans (Problem.length_symbols hw.decisions).symm
  | some g =>
    dsimp only at h
    split at h
    · next hg =>
      cases h
      exact hg
    · cases h

omit [Printable α] in
theorem exists_firstGuess (draws : Nat → α)
    (hguess : ∀ g, guess = some g → g.length = p.program.decisions.length) :
    ∃ first, firstGuess p guess draws = .ok first := by
  cases guess with
  | none => exact ⟨_, rfl⟩
  | some g => exact ⟨g, if_pos (hguess g rfl)⟩

theorem length_trials_start (draws : Nat → α) (hcount : count ≠ 0) (hp : s.problem = some p)
    (hguess : ∀ g, guess = some g → g.length = p.program.decisions.length)
    (hstate : s.engine.instantiate p.program p.options = .ok h) :
    (s.start count guess draws).value.trials.length = count := by
  obtain ⟨first, hfirst⟩ := exists_firstGuess draws hguess
  rw [start_eq_of_prepare hcount hp (prepare_eq_ok.2 ⟨hfirst, hstate⟩), Logged.value_bind,
    (concluded_conclude ..).trials_eq, length_trialsFrom]

variable [Arithmetic α]

/-- Carried along are the handle, which stays the same, and the length of the guess. -/
theorem answered_trialsFrom (count : Nat) (hs : s.engine = Lagrangian.engine) (hw : p.WellFormed)
    (hc : h.model.Compiles p.program) (hfirst : first.length = p.program.decisions.length) :
    ∀ t ∈ (s.trialsFrom p count h first).value, Answered p.program h.settings t := by
  have hone (guess : List α) (hguess : guess.length = p.program.decisions.length) :=
    Lagrangian.wellFormed_of_valid hc h.settings (Problem.fault?_invocation hw count hguess)
  rw [trialsFrom, hs]
  refine Trials.forall_mem_run (I := fun state guess => state = h ∧
    guess.length = p.program.decisions.length) ?_ ?_ ⟨rfl, hfirst⟩
  · rintro index state guess ⟨rfl, hguess⟩
    exact ⟨Problem.fault?_invocation hw count hguess, hone guess hguess⟩
  · rintro state guess ⟨rfl, hguess⟩
    exact ⟨rfl, Guess.length_following (hone guess hguess)⟩

theorem guess_later_trialsFrom {count : Nat} (hs : s.engine = Lagrangian.engine) (hw : p.WellFormed)
    (hc : h.model.Compiles p.program) (hfirst : first.length = p.program.decisions.length)
    {k : Nat} {t : Trial α} (ht : (s.trialsFrom p count h first).value[k + 1]? = some t) :
    p.variableBox.Contains t.invocation.guess ∨
      ∀ x ∈ t.invocation.guess, Scalar.isFinite x = true := by
  have hk : k < (s.trialsFrom p count h first).value.length :=
    Nat.lt_of_succ_lt (List.getElem?_eq_some_iff.1 ht).1
  have hbefore := List.getElem?_eq_getElem hk
  have hanswered := answered_trialsFrom count hs hw hc hfirst _ (List.mem_of_getElem? hbefore)
  have hfollowing := hanswered.following
  rw [(Trials.getElem?_run hbefore).2.1] at hfollowing
  rw [Trials.guess_succ_run hbefore ht]
  exact hfollowing

end Solver

/-! ## Solutions -/

/-- Every decision variable of the problem has a row in the solution, with a value between its
bounds. -/
structure Solution.Within (solution : Solution α) (p : Problem α) : Prop where
  length_eq : solution.decisions.length = p.decisions.length
  at_place : ∀ (i : Nat) (c : Component α), p.decisions[i]? = some c →
    ∃ row v, solution.decisions[i]? = some row ∧ row.name = c.name ∧ row.value = some v ∧
      c.lower ≤ v ∧ v ≤ c.upper

omit [Printable α] in
theorem within_of_extract {p : Problem α} {point : List α} {solution : Solution α}
    (hlength : point.length = p.decisions.length) (hcontains : p.variableBox.Contains point)
    (h : p.extract point = .ok solution) : solution.Within p := by
  have hrows := (extracted_of_extract h).decisions_eq
  refine ⟨by rw [hrows, List.length_zipWith, hlength, Nat.min_self], fun i c hc => ?_⟩
  have hi : i < point.length := hlength ▸ (List.getElem?_eq_some_iff.1 hc).1
  have hpoint := List.getElem?_eq_getElem hi
  obtain ⟨hlower, hupper⟩ := Problem.getElem?_boxOf hc
  refine ⟨c.row point[i], point[i], ?_, rfl, rfl, hcontains i _ _ _ hlower hupper hpoint⟩
  rw [hrows, List.getElem?_zipWith, hc, hpoint]

/-! ## Starts -/

namespace Solver

/-- The trials of the start are valid invocations that are not rejected, each guess after the first
one lies in the box or is finite, and a solution that they lead to keeps the bounds. -/
structure WellPosed (p : Problem α) (count : Nat) (start : Start α σ) : Prop where
  valid : ∀ t ∈ start.trials,
    t.invocation.isValid p.program.decisions.length p.program.constraints.length = true
  status_ne : ∀ t ∈ start.trials, t.output.status ≠ .invalidInput
  guess_later : ∀ (k : Nat) (t : Trial α), start.trials[k + 1]? = some t →
    t.invocation.guess.length = p.decisions.length ∧
      (p.variableBox.Contains t.invocation.guess ∨
        ∀ x ∈ t.invocation.guess, Scalar.isFinite x = true)
  outcomes : ∀ r, start.report = .ok r →
    r.outcomes.length = count ∧ ∀ o ∈ r.outcomes, o.status ≠ .invalidInput
  within : start.trials ≠ [] → ∀ q solution, start.solver.problem = some q →
    q.solution = some solution → solution.Within q

variable [Arithmetic α] {s : Solver α (Lagrangian.Handle α)} {p : Problem α}

theorem wellPosed_of_concluded {h : Lagrangian.Handle α} {first : List α} {count : Nat}
    (hs : s.engine = Lagrangian.engine) (hw : p.WellFormed)
    (hc : h.model.Compiles p.program) (hfirst : first.length = p.program.decisions.length)
    {start : Start α (Lagrangian.Handle α)}
    (hstart : Concluded s p (s.trialsFrom p count h first).value start) :
    WellPosed p count start := by
  have hanswered := answered_trialsFrom count hs hw hc hfirst
  have hn : p.program.decisions.length = p.decisions.length := Problem.length_symbols hw.decisions
  exact
    { valid := by
        rw [hstart.trials_eq]
        exact fun t ht => Invocation.isValid_iff.2 (hanswered t ht).fault?_eq
      status_ne := by
        rw [hstart.trials_eq]
        exact fun t ht => (hanswered t ht).status_ne
      guess_later := by
        rw [hstart.trials_eq]
        intro k t ht
        have hv := (hanswered t (List.mem_of_getElem? ht)).fault?_eq
        exact ⟨(Invocation.fault?_eq_none_iff.1 hv).1.trans hn,
          guess_later_trialsFrom hs hw hc hfirst ht⟩
      outcomes := by
        intro r hr
        rw [hstart.outcomes_eq hr, List.length_map, length_trialsFrom, List.forall_mem_map]
        exact ⟨rfl, fun t ht => (hanswered t ht).status_ne⟩
      within := by
        rintro - q solution hq hsolution
        cases hstart with
        | exhausted hbest | unreadable hbest hextract =>
          cases hq
          cases hsolution
        | solved hbest hextract =>
          cases hq
          cases hsolution
          have ht := (Trials.mem_of_best hbest).1
          have houtput := (hanswered _ ht).output
          have hcontains := houtput.contains (hanswered _ ht).status_ne
          rw [((warmStarted_trialsFrom s p count h first).bounded _ ht).1] at hcontains
          have hwithin := within_of_extract (houtput.length_point.trans hn) hcontains hextract
          exact ⟨hwithin.length_eq, hwithin.at_place⟩ }

/-- Whatever has been done to a problem, the method is given valid invocations by every start of it,
from a given guess or from a drawn one, and rejects none. All trials run if the guess fits the
problem and the method reads its options and its program. -/
theorem wellPosed_start (s : Solver α (Lagrangian.Handle α)) (hs : s.engine = Lagrangian.engine)
    {p : Problem α} (hp : s.problem = some p) (hreachable : p.Reachable) (count : Nat)
    (guess : Option (List α)) (draws : Nat → α) :
    WellPosed p count (s.start count guess draws).value ∧
      (1 ≤ count → (∀ g, guess = some g → g.length = p.program.decisions.length) →
        ∀ h, s.engine.instantiate p.program p.options = .ok h →
          (s.start count guess draws).value.trials.length = count) := by
  have hw := hreachable.wellFormed
  refine ⟨?_, fun hcount hguess h hstate =>
    length_trials_start draws (by omega) hp hguess hstate⟩
  have hstarted := started_start s count guess draws
  generalize (s.start count guess draws).value = start at hstarted ⊢
  cases hstarted with
  | refused e => exact ⟨nofun, nofun, nofun, nofun, fun h => absurd rfl h⟩
  | ran hcount hq hprepare hstart =>
    rw [hp] at hq
    cases hq
    rw [hs] at hprepare
    obtain ⟨hfirst, hstate⟩ := prepare_eq_ok.1 hprepare
    exact wellPosed_of_concluded hs hw (Lagrangian.Handle.compiles_of_instantiate hstate)
      (length_of_firstGuess hw hfirst) hstart

/-- One variable that is to be as small as possible, and an inequality that does not matter. -/
def floor : List (Problem.Operation Float) :=
  [.addVariable "x" 1 10 none false, .addConstraint (.sym ⟨"x", 0⟩) 0 5 none none,
    .addObjective (.sym ⟨"x", 0⟩) none none]

def onFloor : Problem Float := (Problem.create "auglag" false).after floor

def overFloor : Solver Float (Lagrangian.Handle Float) :=
  ⟨.augmentedLagrangian, Lagrangian.engine, some onFloor, none⟩

theorem wellPosed_start_floor :
    WellPosed onFloor 2 (overFloor.start 2 none fun _ => 0).value ∧
      (overFloor.start 2 none fun _ => 0).value.trials.length = 2 ∧
      ((overFloor.start 2 none fun _ => 0).value.solver.problem.bind
        Problem.solution).isSome = true := by
  obtain ⟨hposed, hruns⟩ := wellPosed_start overFloor rfl rfl ⟨"auglag", false, floor, rfl⟩ 2 none
    fun _ => 0
  obtain ⟨h, hstate, -⟩ := exists_eq_ok_of_any
    (x := overFloor.engine.instantiate onFloor.program onFloor.options) (p := fun _ => true)
    (by decide +kernel)
  exact ⟨hposed, hruns (by decide) nofun h hstate, by decide +kernel⟩

end Solver

end Optima
