import Optima.Scalar.Double
import Optima.Trials

/-!
What a start of a solver comes to, and what its trials have to do with each other.

* `Engine.answers`: an engine that is invoked several times in a row.
* `answers_run`, `log_run`: the outputs of the trials are the answers of the engine, and nothing else
  is asked of it.
* `getElem?_run`, `guess_zero_run`, `guess_succ_run`: the number, the bounds and the guess of a
  trial.
* `forall_mem_run`: an invariant of the trials.
* `Solver.Started`: everything that a start can come to; `started_start`: there is nothing else.
* `Engine.scripted`: an engine that gives outputs from a list.
-/

namespace Optima

variable {α σ : Type}

/-- The answers of an engine to invocations one after the other, each with its messages. -/
def Engine.answers (engine : Engine α σ) : σ → List (Invocation α) → List (Logged (Output α))
  | _, [] => []
  | state, inv :: later =>
    let answer := engine.invoke state inv
    answer.map Prod.fst :: engine.answers answer.value.2 later

variable [Scalar α] [Printable α]

namespace Trials

/-! ## One trial after the other -/

/-- What is said of a trial once the engine has answered. -/
def messages (total : Nat) (t : Trial α) : List Message :=
  [⟨.info, outcomeText t.index total t.output⟩, ⟨.debug, followingText t.index t.output⟩]

variable (engine : Engine α σ) (setting : Setting α)

/-- How the engine is invoked from a guess. -/
def Setting.invocation (setting : Setting α) (guess : List α) : Invocation α :=
  ⟨guess, setting.decisions, setting.constraints⟩

/-- The first trial, with the number `index`. -/
def trialFrom (index : Nat) (state : σ) (guess : List α) : Trial α :=
  ⟨index, setting.invocation guess, (engine.invoke state (setting.invocation guess)).value.1⟩

/-- The trials after the first one. -/
def laterTrials (remaining index : Nat) (state : σ) (guess : List α) : Logged (List (Trial α)) :=
  let answer := (engine.invoke state (setting.invocation guess)).value
  run engine setting remaining (index + 1) answer.2 (Guess.following setting.dimension answer.1)

theorem value_run_succ (remaining index : Nat) (state : σ) (guess : List α) :
    (run engine setting (remaining + 1) index state guess).value =
      trialFrom engine setting index state guess ::
        (laterTrials engine setting remaining index state guess).value := rfl

theorem log_run_succ (remaining index : Nat) (state : σ) (guess : List α) :
    (run engine setting (remaining + 1) index state guess).log =
      (engine.invoke state (setting.invocation guess)).log ++
        messages setting.total (trialFrom engine setting index state guess) ++
          (laterTrials engine setting remaining index state guess).log := by
  rw [List.append_assoc]
  refine congrArg (_ ++ ·) (congrArg (_ :: ·) (congrArg (_ :: ·) ?_))
  exact List.append_nil _

theorem answers_run (remaining index : Nat) (state : σ) (guess : List α) :
    (run engine setting remaining index state guess).value.map Trial.output =
      (engine.answers state ((run engine setting remaining index state guess).value.map
        Trial.invocation)).map Logged.value := by
  induction remaining generalizing index state guess with
  | zero => rfl
  | succ remaining ih =>
    rw [value_run_succ, List.map_cons, List.map_cons, Engine.answers, List.map_cons]
    exact congrArg (_ :: ·) (ih ..)

/-- The messages of each trial are those of one answer of the engine, and two more. -/
theorem log_run (remaining index : Nat) (state : σ) (guess : List α) :
    (run engine setting remaining index state guess).log =
      (List.zipWith (fun answer t => answer.log ++ messages setting.total t)
        (engine.answers state ((run engine setting remaining index state guess).value.map
          Trial.invocation))
        (run engine setting remaining index state guess).value).flatten := by
  induction remaining generalizing index state guess with
  | zero => rfl
  | succ remaining ih =>
    rw [log_run_succ, value_run_succ, List.map_cons, Engine.answers, List.zipWith_cons_cons,
      List.flatten_cons]
    exact congrArg (_ ++ ·) (ih ..)

variable {engine setting}

theorem getElem?_run {remaining index : Nat} {state : σ} {guess : List α} {k : Nat} {t : Trial α}
    (h : (run engine setting remaining index state guess).value[k]? = some t) :
    t.index = index + k ∧ t.invocation.decisions = setting.decisions ∧
      t.invocation.constraints = setting.constraints := by
  induction remaining generalizing index state guess k with
  | zero => cases h
  | succ remaining ih =>
    rw [value_run_succ] at h
    cases k with
    | zero =>
      cases h
      exact ⟨rfl, rfl, rfl⟩
    | succ k =>
      obtain ⟨hindex, hbounds⟩ := ih h
      exact ⟨by omega, hbounds⟩

theorem guess_zero_run {remaining index : Nat} {state : σ} {guess : List α} {t : Trial α}
    (h : (run engine setting remaining index state guess).value[0]? = some t) :
    t.invocation.guess = guess := by
  cases remaining with
  | zero => cases h
  | succ remaining =>
    cases h
    rfl

theorem guess_succ_run {remaining index : Nat} {state : σ} {guess : List α} {k : Nat}
    {t t' : Trial α} (h : (run engine setting remaining index state guess).value[k]? = some t)
    (h' : (run engine setting remaining index state guess).value[k + 1]? = some t') :
    t'.invocation.guess = Guess.following setting.dimension t.output := by
  induction remaining generalizing index state guess k with
  | zero => cases h
  | succ remaining ih =>
    rw [value_run_succ] at h h'
    cases k with
    | zero =>
      cases h
      exact guess_zero_run h'
    | succ k => exact ih h h'

/-- What holds before the first trial and is handed on from each trial to the next holds before all
of them. -/
theorem forall_mem_run {I : σ → List α → Prop} {P : Trial α → Prop}
    (htrial : ∀ index state guess, I state guess →
      P (trialFrom engine setting index state guess))
    (hnext : ∀ state guess, I state guess →
      I (engine.invoke state (setting.invocation guess)).value.2
        (Guess.following setting.dimension
          (engine.invoke state (setting.invocation guess)).value.1))
    {remaining index : Nat} {state : σ} {guess : List α} (h : I state guess) :
    ∀ t ∈ (run engine setting remaining index state guess).value, P t := by
  induction remaining generalizing index state guess with
  | zero => nofun
  | succ remaining ih =>
    rw [value_run_succ]
    exact List.forall_mem_cons.2 ⟨htrial index state guess h, ih (hnext state guess h)⟩

end Trials

namespace Solver

/-! ## Starts -/

omit [Printable α] in
theorem prepare_eq_ok {engine : Engine α σ} {p : Problem α} {guess : Option (List α)}
    {draws : Nat → α} {first : List α} {state : σ} :
    prepare engine p guess draws = .ok (first, state) ↔
      firstGuess p guess draws = .ok first ∧
        engine.instantiate p.program p.options = .ok state := by
  unfold prepare
  cases firstGuess p guess draws with
  | error e => exact ⟨nofun, fun h => by cases h.1⟩
  | ok g =>
    cases hi : engine.instantiate p.program p.options with
    | error e => exact ⟨nofun, fun h => by cases h.2⟩
    | ok st =>
      constructor
      · rintro ⟨⟩
        exact ⟨rfl, rfl⟩
      · rintro ⟨⟨⟩, ⟨⟩⟩
        rfl

/-- What the trials of a problem have in common. -/
def settingOf (p : Problem α) (count : Nat) : Trials.Setting α :=
  ⟨p.variableBox, p.constraintBox, p.symbols.length, count⟩

/-- The trials of a problem, from a guess and a state of the engine. -/
def trialsFrom (s : Solver α σ) (p : Problem α) (count : Nat) (state : σ) (first : List α) :
    Logged (List (Trial α)) :=
  Trials.run s.engine (settingOf p count) count 0 state first

/-- The solver while its trials run: what an earlier start has found is gone. -/
def cleared (s : Solver α σ) (p : Problem α) : Solver α σ :=
  { s with problem := some p.markUnsolved, selected := none }

/-- What a start comes to after the given trials of a problem. -/
inductive Concluded (s : Solver α σ) (p : Problem α) (trials : List (Trial α)) : Start α σ → Prop
  | exhausted (hbest : Trials.best trials = none) :
    Concluded s p trials ⟨.ok (Trials.report trials none), s.cleared p, trials⟩
  /-- The best point does not fit the problem. -/
  | unreadable {t : Trial α} {e : Failure α} (hbest : Trials.best trials = some t)
      (hextract : p.extract t.output.point = .error e) :
    Concluded s p trials ⟨.error e, s.cleared p, trials⟩
  | solved {t : Trial α} {solution : Solution α} (hbest : Trials.best trials = some t)
      (hextract : p.extract t.output.point = .ok solution) :
    Concluded s p trials ⟨.ok (Trials.report trials (some t.index)),
      { s with problem := some (p.markUnsolved.markSolved solution), selected := some t.output },
      trials⟩

omit [Printable α] in
theorem Concluded.trials_eq {s : Solver α σ} {p : Problem α} {trials : List (Trial α)}
    {start : Start α σ} (h : Concluded s p trials start) : start.trials = trials := by
  cases h <;> rfl

omit [Printable α] in
theorem Concluded.outcomes_eq {s : Solver α σ} {p : Problem α} {trials : List (Trial α)}
    {start : Start α σ} {r : TrialReport α} (h : Concluded s p trials start)
    (hr : start.report = .ok r) : r.outcomes = trials.map Trial.outcome := by
  cases h with
  | exhausted hbest =>
    cases hr
    rfl
  | unreadable hbest hextract => cases hr
  | solved hbest hextract =>
    cases hr
    rfl

theorem concluded_conclude (s : Solver α σ) (p : Problem α) (trials : List (Trial α)) :
    Concluded s p trials (conclude (s.cleared p) p.markUnsolved trials).value := by
  have hsame (point : List α) : p.markUnsolved.extract point = p.extract point := rfl
  unfold conclude
  cases hbest : Trials.best trials with
  | none => exact .exhausted hbest
  | some t =>
    rw [Logged.value_bind, hsame]
    cases hextract : p.extract t.output.point with
    | error e => exact .unreadable hbest hextract
    | ok solution => exact .solved hbest hextract

theorem exists_log_conclude (s : Solver α σ) (p : Problem α) (trials : List (Trial α)) :
    ∃ last, (conclude s p trials).log = [last] := by
  unfold conclude
  cases Trials.best trials with
  | none => exact ⟨_, rfl⟩
  | some t =>
    rw [Logged.log_bind]
    cases p.extract t.output.point with
    | error e => exact ⟨_, rfl⟩
    | ok solution => exact ⟨_, rfl⟩

/-- Where nothing speaks against a start, its trials run. -/
theorem start_eq_of_prepare {s : Solver α σ} {p : Problem α} {count : Nat}
    {guess : Option (List α)} {draws : Nat → α} {first : List α} {state : σ} (hcount : count ≠ 0)
    (hp : s.problem = some p) (h : prepare s.engine p guess draws = .ok (first, state)) :
    s.start count guess draws = (do
      let trials ← s.trialsFrom p count state first
      conclude (s.cleared p) p.markUnsolved trials) := by
  unfold start
  rw [if_neg hcount, hp]
  dsimp only
  rw [h]
  rfl

/-- What a start can come to. -/
inductive Started (s : Solver α σ) (count : Nat) (guess : Option (List α)) (draws : Nat → α) :
    Start α σ → Prop
  | refused (e : Failure α) : Started s count guess draws ⟨.error e, s, []⟩
  | ran {p : Problem α} {first : List α} {state : σ} {start : Start α σ} (hcount : count ≠ 0)
      (hp : s.problem = some p) (hprepare : prepare s.engine p guess draws = .ok (first, state))
      (h : Concluded s p (s.trialsFrom p count state first).value start) :
    Started s count guess draws start

theorem started_start (s : Solver α σ) (count : Nat) (guess : Option (List α))
    (draws : Nat → α) : Started s count guess draws (s.start count guess draws).value := by
  by_cases hcount : count = 0
  · rw [start, if_pos hcount]
    exact .refused _
  · cases hp : s.problem with
    | none =>
      rw [start, if_neg hcount, hp]
      exact .refused _
    | some p =>
      cases hprepare : prepare s.engine p guess draws with
      | error e =>
        rw [start, if_neg hcount, hp]
        dsimp only
        rw [hprepare]
        exact .refused e
      | ok prepared =>
        obtain ⟨first, state⟩ := prepared
        rw [start_eq_of_prepare hcount hp hprepare, Logged.value_bind]
        exact .ran hcount hp hprepare (concluded_conclude ..)

end Solver

/-! ## Engines that follow a script -/

/-- Gives the outputs of a list one after the other, whatever it is asked. -/
def Engine.scripted (script : List (Output α)) : Engine α (List (Output α)) where
  name := "scripted"
  instantiate _ _ := .ok script
  invoke
    | [], inv => pure (.rejected inv.guess 0 0, [])
    | out :: later, _ => pure (out, later)

/-- Two variables between 0 and 10, in doubles, and nothing else. -/
def square : Problem Float :=
  { Problem.create "auglag" false with
    decisions := [⟨.decision false, .sym ⟨"x", 0⟩, 0, 10, some "x", none⟩,
      ⟨.decision false, .sym ⟨"y", 1⟩, 0, 10, some "y", none⟩]
    nextId := 2 }

/-- A solver that runs a script on the two variables. -/
def onSquare (script : List (Output Float)) : Solver Float (List (Output Float)) :=
  ⟨.augmentedLagrangian, .scripted script, some square, none⟩

def failing (multipliers : List Float) : Output Float :=
  ⟨[], multipliers, [], Scalar.nan, [], false, .infeasible, 1⟩

def finding (point : List Float) (objective : Float) : Output Float :=
  ⟨point, [], [], objective, [], true, .solved, 1⟩

end Optima
