import Optima.Proofs.Trials.Run

/-!
Trials start where the one before has led to.

* `fit_eq`: what it means to bring a list to the dimension of a problem.
* `best_eq_none_iff`, `mem_of_best`: there is a best trial unless all trials fail, and it is one of
  the successes.
* `WarmStarted`: how the invocations of an engine follow from its answers; `warmStarted_trialsFrom`:
  the trials of a problem are like that.
* `Recorded`: what a report says of the trials; `recorded_of_concluded`: every report does.
* `start_warm`: all of it for a start from a given guess, for any engine.
-/

namespace Optima

variable {α σ : Type} [Scalar α]

theorem Guess.fit_eq (n : Nat) (values : List α) :
    Guess.fit n values = values.take n ++ List.replicate (n - values.length) 0 := by
  apply List.ext_getElem?
  intro i
  rw [List.getElem?_append, List.getElem?_take, List.getElem?_replicate, List.length_take]
  by_cases hi : i < n
  · by_cases hv : i < values.length
    · have hkept : i < min n values.length := by omega
      simp [fit, List.getD, hi, hv, hkept]
    · have hgone : ¬ i < min n values.length := by omega
      have hpad : i - min n values.length < n - values.length := by omega
      simp [fit, List.getD, hi, hv, hgone, hpad]
  · have hgone : ¬ i < min n values.length := by omega
    have hpad : ¬ i - min n values.length < n - values.length := by omega
    simp [fit, hi, hgone, hpad]

namespace Trials

theorem foldl_better_eq_none_iff (trials : List (Trial α)) (acc : Option (Trial α)) :
    trials.foldl better acc = none ↔ acc = none ∧ ∀ t ∈ trials, t.output.success = false := by
  induction trials generalizing acc with
  | nil => simp
  | cons t trials ih =>
    have hstep : better acc t = none ↔ acc = none ∧ t.output.success = false := by
      unfold better
      by_cases ht : t.output.success = true
      · cases acc with
        | none => simp [ht]
        | some b => by_cases hlt : t.output.objective < b.output.objective <;> simp [ht, hlt]
      · simp [ht]
    rw [List.foldl_cons, ih, hstep, List.forall_mem_cons, and_assoc]

theorem best_eq_none_iff (trials : List (Trial α)) :
    best trials = none ↔ ∀ t ∈ trials, t.output.success = false := by
  rw [best, foldl_better_eq_none_iff]
  exact ⟨And.right, fun h => ⟨rfl, h⟩⟩

theorem better_cases (acc : Option (Trial α)) (t : Trial α) :
    better acc t = acc ∨ t.output.success = true ∧ better acc t = some t := by
  unfold better
  split
  · next hsuccess =>
    split
    · exact .inr ⟨hsuccess, rfl⟩
    · split
      · exact .inr ⟨hsuccess, rfl⟩
      · exact .inl rfl
  · exact .inl rfl

theorem mem_of_foldl_better {trials : List (Trial α)} {acc : Option (Trial α)} {b : Trial α}
    (h : trials.foldl better acc = some b) :
    acc = some b ∨ b ∈ trials ∧ b.output.success = true := by
  induction trials generalizing acc with
  | nil => exact .inl h
  | cons t trials ih =>
    rcases ih h with hstep | ⟨hb, hsuccess⟩
    · rcases better_cases acc t with hacc | ⟨hsuccess, ht⟩
      · exact .inl (hacc.symm.trans hstep)
      · cases ht.symm.trans hstep
        exact .inr ⟨List.mem_cons_self, hsuccess⟩
    · exact .inr ⟨List.mem_cons_of_mem _ hb, hsuccess⟩

/-- The best trial is one of the successes. -/
theorem mem_of_best {trials : List (Trial α)} {b : Trial α} (h : best trials = some b) :
    b ∈ trials ∧ b.output.success = true :=
  (mem_of_foldl_better h).resolve_left nofun

end Trials

variable [Printable α]

/-! ## From one trial to the next -/

/-- The trials are invocations of an engine one after the other, with the bounds of the problem. The
first one is from the guess `first`; later ones are from the point of the one before if it was a
success, and else from its bound multipliers, cut or filled up with zeros to the dimension of the
problem. -/
structure WarmStarted (engine : Engine α σ) (p : Problem α) (state : σ) (first : List α)
    (trials : List (Trial α)) : Prop where
  answered : trials.map Trial.output =
    (engine.answers state (trials.map Trial.invocation)).map Logged.value
  bounded : ∀ t ∈ trials, t.invocation.decisions = ⟨p.decisions.map Component.lower,
      p.decisions.map Component.upper⟩ ∧
    t.invocation.constraints = ⟨p.constraints.map Component.lower,
      p.constraints.map Component.upper⟩
  guess_first : ∀ t, trials[0]? = some t → t.invocation.guess = first
  guess_of_success : ∀ (k : Nat) (t t' : Trial α), trials[k]? = some t →
    trials[k + 1]? = some t' → t.output.success = true → t'.invocation.guess = t.output.point
  guess_of_failure : ∀ (k : Nat) (t t' : Trial α), trials[k]? = some t →
    trials[k + 1]? = some t' → t.output.success = false →
      t'.invocation.guess = t.output.boundMultipliers.take p.symbols.length ++
        List.replicate (p.symbols.length - t.output.boundMultipliers.length) 0

namespace Solver

variable {s : Solver α σ} {p : Problem α}

theorem length_trialsFrom (s : Solver α σ) (p : Problem α) (count : Nat) (state : σ)
    (first : List α) : (s.trialsFrom p count state first).value.length = count :=
  Trials.length_run ..

theorem warmStarted_trialsFrom (s : Solver α σ) (p : Problem α) (count : Nat) (state : σ)
    (first : List α) :
    WarmStarted s.engine p state first (s.trialsFrom p count state first).value where
  answered := Trials.answers_run ..
  bounded := by
    intro t ht
    obtain ⟨k, hk⟩ := List.mem_iff_getElem?.1 ht
    exact (Trials.getElem?_run hk).2
  guess_first := fun _ h => Trials.guess_zero_run h
  guess_of_success := by
    intro k t t' ht ht' hs
    rw [Trials.guess_succ_run ht ht', Guess.following, if_pos hs]
  guess_of_failure := by
    intro k t t' ht ht' hf
    rw [Trials.guess_succ_run ht ht', Guess.following, hf, if_neg Bool.false_ne_true,
      Guess.fit_eq]
    rfl

/-! ## Reports -/

/-- A report has one entry for each of `count` trials and names a best one unless all have failed,
in which case nothing is left of an earlier solution. -/
structure Recorded (count : Nat) (start : Start α σ) (r : TrialReport α) : Prop where
  length_outcomes : r.outcomes.length = count
  outcome_at : ∀ (k : Nat) (t : Trial α), start.trials[k]? = some t →
    r.outcomes[k]? = some
      ⟨k, t.output.success, t.output.status, t.output.objective, t.output.iterations⟩
  best_eq_none_iff : r.best = none ↔ ∀ t ∈ start.trials, t.output.success = false
  unsolved : r.best = none → start.solver.selected = none ∧
    ∃ q, start.solver.problem = some q ∧ q.isSolved = false ∧ q.solution = none

theorem recorded_of_concluded {count : Nat} {state : σ} {first : List α} {start : Start α σ}
    {r : TrialReport α} (h : Concluded s p (s.trialsFrom p count state first).value start)
    (hr : start.report = .ok r) : Recorded count start r where
  length_outcomes := by
    rw [h.outcomes_eq hr, List.length_map, length_trialsFrom]
  outcome_at := by
    intro k t ht
    rw [h.trials_eq] at ht
    rw [h.outcomes_eq hr, List.getElem?_map, ht, Option.map_some, Trial.outcome,
      (Trials.getElem?_run ht).1, Nat.zero_add]
  best_eq_none_iff := by
    cases h with
    | exhausted hbest =>
      cases hr
      exact ⟨fun _ => (Trials.best_eq_none_iff _).1 hbest, fun _ => rfl⟩
    | unreadable hbest hextract => cases hr
    | solved hbest hextract =>
      cases hr
      refine ⟨nofun, fun hfail => ?_⟩
      rw [(Trials.best_eq_none_iff _).2 hfail] at hbest
      cases hbest
  unsolved := by
    cases h with
    | exhausted hbest => exact fun _ => ⟨rfl, _, rfl, rfl, rfl⟩
    | unreadable hbest hextract => cases hr
    | solved hbest hextract =>
      cases hr
      nofun

/-! ## Starts from a given guess -/

/-- The messages of a start before its last one: those of the engine on each invocation, and two
more for each trial. -/
def trialMessages (engine : Engine α σ) (state : σ) (trials : List (Trial α)) : List Message :=
  (List.zipWith (fun answer t => answer.log ++ Trials.messages trials.length t)
    (engine.answers state (trials.map Trial.invocation)) trials).flatten

/-- Once the engine is instantiated, it is invoked `count` times and asked nothing else. Each
invocation follows from the answer before, and every report tells of all of them. -/
theorem start_warm (s : Solver α σ) (count : Nat) (guess : List α) (draws : Nat → α) {state : σ}
    (hp : s.problem = some p) (hcount : 1 ≤ count) (hguess : guess.length = p.symbols.length)
    (hstate : s.engine.instantiate p.program p.options = .ok state) :
    (s.start count (some guess) draws).value.trials.length = count ∧
      WarmStarted s.engine p state guess (s.start count (some guess) draws).value.trials ∧
      (∃ last, (s.start count (some guess) draws).log =
        trialMessages s.engine state (s.start count (some guess) draws).value.trials ++ [last]) ∧
      ∀ r, (s.start count (some guess) draws).value.report = .ok r →
        Recorded count (s.start count (some guess) draws).value r := by
  have hprepare : prepare s.engine p (some guess) draws = .ok (guess, state) :=
    prepare_eq_ok.2 ⟨if_pos hguess, hstate⟩
  have hconcluded := concluded_conclude s p (s.trialsFrom p count state guess).value
  obtain ⟨last, hlast⟩ := exists_log_conclude (s.cleared p) p.markUnsolved
    (s.trialsFrom p count state guess).value
  rw [start_eq_of_prepare (by omega) hp hprepare, Logged.value_bind, Logged.log_bind, hlast,
    hconcluded.trials_eq]
  refine ⟨length_trialsFrom .., warmStarted_trialsFrom .., ⟨last, ?_⟩,
    fun r hr => recorded_of_concluded hconcluded hr⟩
  rw [trialMessages, length_trialsFrom, trialsFrom, Trials.log_run]
  rfl

/-- Two failures with too many and too few multipliers, and two successes. -/
def stumbling : List (Output Float) :=
  [failing [0.5, 0.25, 9], failing [0.75], finding [1, 1] 2, finding [2, 3] 1]

theorem start_warm_stumbling :
    let start := (onSquare stumbling).start 4 (some [0, 0]) fun _ => 0
    start.value.trials.length = 4 ∧
      WarmStarted (.scripted stumbling) square stumbling [0, 0] start.value.trials ∧
      (∃ last, start.log = trialMessages (.scripted stumbling) stumbling start.value.trials ++
        [last]) ∧
      ∃ r, start.value.report = .ok r ∧ Recorded 4 start.value r ∧ r.best = some 3 := by
  obtain ⟨hcount, hwarm, hlog, hreport⟩ := start_warm (onSquare stumbling) 4 [0, 0] (fun _ => 0)
    (p := square) rfl (by decide) rfl rfl
  exact ⟨hcount, hwarm, hlog, _, rfl, hreport _ rfl, by decide +kernel⟩

end Solver

end Optima
