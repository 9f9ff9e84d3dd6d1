import Optima.Proofs.Scalar.Double
import Optima.Proofs.Trials.WarmStart

/-!
Which trial is the best one.

* `Lowest`: a trial that is a success with the lowest objective, and the first such trial.
* `best_append_singleton`, `lowest_append`: what one more trial does to the best one so far.
* `lowest_of_best`: the best trial is the lowest, if the first success has a defined objective.
* `best_of_undefined_first`: if it has none, it stays the best one whatever comes later.
* `Found`: the solution of a start, and the trial that it comes from; `found_of_concluded`: every
  report that names a best trial has such a solution.
* `selects_lowest_iff`: a start selects the lowest trial exactly if its first success has a defined
  objective; `not_selects_lowest`: it need not have one.
-/

namespace Optima

variable {α σ : Type} [Scalar α] {trials : List (Trial α)} {t : Trial α} {k : Nat}

/-- A success with an objective that can be compared. -/
def Trial.Comparable (t : Trial α) : Prop :=
  t.output.success = true ∧ Scalar.isNaN t.output.objective = false

theorem Trial.not_comparable_of_failure {t : Trial α} (h : t.output.success = false) :
    ¬ t.Comparable := by
  rintro ⟨hs, -⟩
  rw [h] at hs
  cases hs

namespace Trials

/-- The trial at place `k` has the lowest objective of all comparable ones, and those before it have
higher ones. -/
structure Lowest (trials : List (Trial α)) (k : Nat) (t : Trial α) : Prop where
  at_place : trials[k]? = some t
  comparable : t.Comparable
  le : ∀ u ∈ trials, u.Comparable → t.output.objective ≤ u.output.objective
  lt : ∀ (i : Nat) (u : Trial α), i < k → trials[i]? = some u → u.Comparable →
    t.output.objective < u.output.objective

def firstSuccess? (trials : List (Trial α)) : Option (Trial α) :=
  trials.find? fun t => t.output.success

omit [Scalar α] in
theorem firstSuccess?_eq_none_iff :
    firstSuccess? trials = none ↔ ∀ t ∈ trials, t.output.success = false := by
  simp [firstSuccess?]

omit [Scalar α] in
theorem firstSuccess?_append (trials : List (Trial α)) (t : Trial α) :
    firstSuccess? (trials ++ [t]) =
      (firstSuccess? trials).or (if t.output.success then some t else none) := by
  rw [firstSuccess?, List.find?_append]
  by_cases ht : t.output.success = true <;> simp [firstSuccess?, ht]

/-! ## One more trial -/

theorem best_append_singleton (trials : List (Trial α)) (t : Trial α) :
    best (trials ++ [t]) = better (best trials) t := by
  rw [best, List.foldl_append]
  rfl

theorem lowest_of_first [Ordered α] (hfail : ∀ u ∈ trials, u.output.success = false)
    (ht : t.Comparable) : Lowest (trials ++ [t]) trials.length t where
  at_place := List.getElem?_concat_length ..
  comparable := ht
  le := by
    intro u hu hc
    rcases List.mem_append.1 hu with hu | hu
    · exact absurd hc (Trial.not_comparable_of_failure (hfail u hu))
    · rw [List.mem_singleton.1 hu]
      exact Ordered.le_refl ht.2
  lt := by
    intro i u hi hu hc
    rw [List.getElem?_append_left hi] at hu
    exact absurd hc (Trial.not_comparable_of_failure (hfail u (List.mem_of_getElem? hu)))

theorem lowest_of_lt [Ordered α] {b : Trial α} (h : Lowest trials k b) (ht : t.Comparable)
    (hlt : t.output.objective < b.output.objective) :
    Lowest (trials ++ [t]) trials.length t := by
  have hbelow (u : Trial α) (hu : u ∈ trials) (hc : u.Comparable) :
      t.output.objective < u.output.objective := Ordered.lt_of_lt_of_le hlt (h.le u hu hc)
  refine ⟨List.getElem?_concat_length .., ht, fun u hu hc => ?_, fun i u hi hu hc => ?_⟩
  · rcases List.mem_append.1 hu with hu | hu
    · exact Ordered.le_of_lt (hbelow u hu hc)
    · rw [List.mem_singleton.1 hu]
      exact Ordered.le_refl ht.2
  · rw [List.getElem?_append_left hi] at hu
    exact hbelow u (List.mem_of_getElem? hu) hc

theorem lowest_of_not_lt [Ordered α] {b : Trial α} (h : Lowest trials k b)
    (hlt : t.Comparable → ¬ t.output.objective < b.output.objective) :
    Lowest (trials ++ [t]) k b := by
  have hk : k < trials.length := (List.getElem?_eq_some_iff.1 h.at_place).1
  refine ⟨by rw [List.getElem?_append_left hk]; exact h.at_place, h.comparable,
    fun u hu hc => ?_, fun i u hi hu hc => ?_⟩
  · rcases List.mem_append.1 hu with hu | hu
    · exact h.le u hu hc
    · rw [List.mem_singleton.1 hu] at hc ⊢
      exact (Ordered.not_lt hc.2 h.comparable.2).1 (hlt hc)
  · rw [List.getElem?_append_left (by omega)] at hu
    exact h.lt i u hi hu hc

/-- The lowest trial stays the best one, or gives way to the new one. -/
theorem lowest_append [Ordered α] {b : Trial α} (h : Lowest trials k b) (t : Trial α) :
    ∃ k' b', better (some b) t = some b' ∧ Lowest (trials ++ [t]) k' b' := by
  by_cases ht : t.output.success = true
  · by_cases hlt : t.output.objective < b.output.objective
    · have hdefined := (Ordered.defined_of_lt hlt).1
      exact ⟨_, t, by simp [better, ht, hlt], lowest_of_lt h ⟨ht, hdefined⟩ hlt⟩
    · exact ⟨k, b, by simp [better, ht, hlt], lowest_of_not_lt h fun _ => hlt⟩
  · exact ⟨k, b, by simp [better, ht], lowest_of_not_lt h fun hc => absurd hc.1 ht⟩

/-! ## All trials -/

/-- The induction is on the trials from the last one to the first: each but the first success meets
a best trial that is already the lowest. -/
theorem lowest_of_best [Ordered α]
    (hfirst : ∀ f, firstSuccess? trials = some f → Scalar.isNaN f.output.objective = false) :
    best trials = none ∨ ∃ k b, best trials = some b ∧ Lowest trials k b := by
  induction trials using List.reverseRecOn with
  | nil => exact .inl rfl
  | append_singleton trials t ih =>
    have hprefix : ∀ f, firstSuccess? trials = some f →
        Scalar.isNaN f.output.objective = false := by
      intro f hf
      exact hfirst f (by rw [firstSuccess?_append, hf, Option.some_or])
    rw [best_append_singleton]
    rcases ih hprefix with hnone | ⟨k, b, hbest, hlowest⟩
    · rw [hnone]
      by_cases ht : t.output.success = true
      · have hfail := (best_eq_none_iff trials).1 hnone
        have hdefined := hfirst t (by
          rw [firstSuccess?_append, firstSuccess?_eq_none_iff.2 hfail, Option.none_or, if_pos ht])
        exact .inr ⟨_, t, by simp [better, ht], lowest_of_first hfail ⟨ht, hdefined⟩⟩
      · exact .inl (by simp [better, ht])
    · rw [hbest]
      exact .inr (lowest_append hlowest t)

/-- Nothing is lower than an undefined objective. -/
theorem foldl_better_of_isNaN [Ordered α] {b : Trial α}
    (hb : Scalar.isNaN b.output.objective = true) (trials : List (Trial α)) :
    trials.foldl better (some b) = some b := by
  induction trials with
  | nil => rfl
  | cons t trials ih =>
    have hlt : ¬ t.output.objective < b.output.objective := by
      intro hlt
      rw [(Ordered.defined_of_lt hlt).2] at hb
      cases hb
    have hkeep : better (some b) t = some b := by simp [better, hlt]
    rw [List.foldl_cons, hkeep, ih]

theorem best_of_undefined_first [Ordered α] {f : Trial α} (hf : firstSuccess? trials = some f)
    (hn : Scalar.isNaN f.output.objective = true) : best trials = some f := by
  induction trials with
  | nil => cases hf
  | cons t trials ih =>
    rw [firstSuccess?, List.find?_cons] at hf
    rw [best, List.foldl_cons]
    by_cases ht : t.output.success = true
    · have hstep : better none t = some t := by simp [better, ht]
      rw [ht] at hf
      cases hf
      rw [hstep]
      exact foldl_better_of_isNaN hn trials
    · have hstep : better none t = none := by simp [better, ht]
      rw [Bool.not_eq_true] at ht
      rw [ht] at hf
      rw [hstep]
      exact ih hf

end Trials

/-! ## The selection of a start -/

namespace Solver

variable [Printable α]

/-- The report names the lowest trial, and its output is kept. -/
def SelectsLowest (start : Start α σ) (r : TrialReport α) : Prop :=
  ∃ k t, r.best = some k ∧ Trials.Lowest start.trials k t ∧
    start.solver.selected = some t.output

/-- What a start reports and keeps of its best trial, if there is one. -/
theorem selected_of_report {s : Solver α σ} {count : Nat} {guess : Option (List α)}
    {draws : Nat → α} {start : Start α σ} {r : TrialReport α} {b : Trial α}
    (h : Started s count guess draws start) (hr : start.report = .ok r)
    (hb : Trials.best start.trials = some b) :
    r.best = some b.index ∧ start.solver.selected = some b.output ∧
      ∀ (k : Nat) (t : Trial α), start.trials[k]? = some t → t.index = k := by
  cases h with
  | refused e => cases hr
  | ran hcount hp hprepare h =>
    have hindex (k : Nat) (t : Trial α) (ht : start.trials[k]? = some t) : t.index = k := by
      rw [h.trials_eq] at ht
      rw [(Trials.getElem?_run ht).1, Nat.zero_add]
    cases h with
    | exhausted hbest =>
      rw [hbest] at hb
      cases hb
    | unreadable hbest hextract => cases hr
    | solved hbest hextract =>
      rw [hbest] at hb
      cases hb
      cases hr
      exact ⟨rfl, rfl, hindex⟩

/-- The solution of a start comes from the trial at place `k`, a success whose output is kept. -/
structure Found (start : Start α σ) (k : Nat) (t : Trial α) (q : Problem α)
    (solution : Solution α) : Prop where
  at_place : start.trials[k]? = some t
  success : t.output.success = true
  selected : start.solver.selected = some t.output
  problem_eq : start.solver.problem = some q
  solution_eq : q.solution = some solution

theorem found_of_concluded {s : Solver α σ} {p : Problem α} {count : Nat} {state : σ}
    {first : List α} {start : Start α σ}
    (h : Concluded s p (s.trialsFrom p count state first).value start) {r : TrialReport α} {k : Nat}
    (hr : start.report = .ok r) (hk : r.best = some k) :
    ∃ t q solution, Found start k t q solution ∧ p.extract t.output.point = .ok solution := by
  cases h with
  | exhausted hbest =>
    cases hr
    cases hk
  | unreadable hbest hextract => cases hr
  | @solved t solution hbest hextract =>
    cases hr
    cases hk
    obtain ⟨ht, hsuccess⟩ := Trials.mem_of_best hbest
    obtain ⟨i, hi⟩ := List.mem_iff_getElem?.1 ht
    have hindex : t.index = i := by rw [(Trials.getElem?_run hi).1, Nat.zero_add]
    exact ⟨t, _, solution, ⟨by rw [hindex]; exact hi, hsuccess, rfl, rfl, rfl⟩, hextract⟩

/-- Where some success has a defined objective, a start selects the lowest one exactly if the first
success has a defined objective. -/
theorem selects_lowest_iff [Ordered α] (s : Solver α σ) (count : Nat) (guess : Option (List α))
    (draws : Nat → α) {r : TrialReport α}
    (hr : (s.start count guess draws).value.report = .ok r)
    (hc : ∃ t ∈ (s.start count guess draws).value.trials, t.Comparable) :
    SelectsLowest (s.start count guess draws).value r ↔
      ∀ f, Trials.firstSuccess? (s.start count guess draws).value.trials = some f →
        Scalar.isNaN f.output.objective = false := by
  have hstarted := started_start s count guess draws
  generalize (s.start count guess draws).value = start at hr hc hstarted ⊢
  constructor
  · rintro ⟨k, t, hk, hlowest, -⟩ f hf
    by_contra hn
    rw [Bool.not_eq_false] at hn
    obtain ⟨hbest, -, hindex⟩ :=
      selected_of_report hstarted hr (Trials.best_of_undefined_first hf hn)
    obtain ⟨i, hi⟩ := List.mem_iff_getElem?.1 (List.mem_of_find?_eq_some hf)
    -- the first success is the trial at the place that the report names
    have hplace : k = i := by
      rw [hk, hindex i f hi] at hbest
      exact Option.some.inj hbest
    rw [← hplace, hlowest.at_place] at hi
    cases hi
    rw [hlowest.comparable.2] at hn
    cases hn
  · intro hfirst
    rcases Trials.lowest_of_best hfirst with hnone | ⟨k, b, hbest, hlowest⟩
    · obtain ⟨t, ht, hcomparable⟩ := hc
      have hfail := (Trials.best_eq_none_iff _).1 hnone t ht
      exact absurd hcomparable (Trial.not_comparable_of_failure hfail)
    · obtain ⟨hk, hselected, hindex⟩ := selected_of_report hstarted hr hbest
      rw [hindex k b hlowest.at_place] at hk
      exact ⟨k, b, hk, hlowest, hselected⟩

/-- Successes with a tie and with an undefined objective, after a failure. -/
def mixed : Solver Float (List (Output Float)) :=
  onSquare [failing [0, 0], finding [5, 0] 5, finding [2, 0] 2, finding [3, 0] Scalar.nan,
    finding [4, 0] 2]

theorem selects_lowest_iff_mixed :
    ∃ r, (mixed.start 5 (some [0, 0]) fun _ => 0).value.report = .ok r ∧
      SelectsLowest (mixed.start 5 (some [0, 0]) fun _ => 0).value r ∧ r.best = some 2 := by
  have hc : ∃ t ∈ (mixed.start 5 (some [0, 0]) fun _ => 0).value.trials, t.Comparable :=
    ⟨_, List.mem_of_getElem? (i := 1) rfl, rfl, by decide +kernel⟩
  refine ⟨_, rfl, (selects_lowest_iff mixed 5 (some [0, 0]) _ rfl hc).2 ?_, by decide +kernel⟩
  rintro f ⟨⟩
  decide +kernel

/-- A success with an undefined objective, and one that can be compared. -/
def shadowed : Start Float (List (Output Float)) :=
  ((onSquare [finding [0, 0] Scalar.nan, finding [1, 1] 2]).start 2 (some [0, 0]) fun _ => 0).value

/-- The first success hides the second one. -/
theorem not_selects_lowest :
    ∃ r, shadowed.report = .ok r ∧ (∃ t ∈ shadowed.trials, t.Comparable) ∧
      ¬ SelectsLowest shadowed r := by
  refine ⟨_, rfl, ⟨_, List.mem_of_getElem? (i := 1) rfl, rfl, by decide +kernel⟩, ?_⟩
  rintro ⟨k, t, hk, hlowest, -⟩
  have hplace : k = 0 := by
    have hbest : some 0 = some k := hk
    exact (Option.some.inj hbest).symm
  subst hplace
  have hundefined : Scalar.isNaN t.output.objective = true := by
    cases hlowest.at_place
    decide +kernel
  rw [hlowest.comparable.2] at hundefined
  cases hundefined

end Solver

end Optima
