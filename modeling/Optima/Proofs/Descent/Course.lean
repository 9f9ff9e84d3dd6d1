import Optima.Proofs.Descent
import Optima.Proofs.Scalar.Double

/-!
The course of a search in a box: the iterates that it goes through, and where it ends.

* `backtrack_eq_some`: an accepted step is one of the halved steps.
* `advance_eq_next`, `advance_eq_nonFinite`, `advance_eq_stalled_iff`: what each result of an
  iteration says.
* `Visits`: the search goes through an iterate after a number of iterations; `minimize_eq_run`: its
  outcome is that of the rest of the search.
* `Ends`, `minimize_cases`: every outcome comes from an iterate of the course, or the search does
  not even start.
* `honest_minimize`: what the outcome says of itself is true, for any function.
-/

namespace Optima.Descent

variable {α : Type} [Scalar α] {f : Smooth α} {box : Box α} {rule : StepRule} {it it' : Iterate α}

/-! ## One iteration -/

theorem backtrack_eq_some {count : Nat} {step step' : α} {trial : List α}
    (h : backtrack f box it count step = some (trial, step')) :
    ∃ k < count, step' = halved step k ∧ trial = box.move it.point it.gradient step' ∧
      accepts f it trial = true := by
  induction count generalizing step with
  | zero => cases h
  | succ count ih =>
    rw [backtrack] at h
    split at h
    · next haccepts =>
      cases h
      exact ⟨0, Nat.succ_pos count, rfl, rfl, haccepts⟩
    · obtain ⟨k, hk, hstep, htrial, haccepts⟩ := ih h
      exact ⟨k + 1, Nat.succ_lt_succ hk, hstep, htrial, haccepts⟩

/-- Another iterate is at an accepted point, carries what the function gives there, and goes on with
the step that the rule gives. -/
theorem advance_eq_next (h : advance f box rule it = .next it') :
    ∃ k < maxTrials, it'.point = box.move it.point it.gradient (halved it.step k) ∧
      accepts f it it'.point = true ∧
      f.valueAndGradient it'.point = (it'.value, it'.gradient) ∧
      allFinite it'.value it'.gradient = true ∧
      it'.step = nextStep rule it (halved it.step k) it'.point it'.gradient := by
  unfold advance at h
  split at h
  · cases h
  · next trial step hb =>
    obtain ⟨k, hk, rfl, htrial, haccepts⟩ := backtrack_eq_some hb
    split at h
    next value gradient hv =>
    split at h
    · next hfin =>
      cases h
      exact ⟨k, hk, htrial, haccepts, hv, hfin, rfl⟩
    · cases h

theorem advance_eq_nonFinite {point : List α} (h : advance f box rule it = .nonFinite point) :
    (∃ step, point = box.move it.point it.gradient step) ∧
      allFinite (f.valueAndGradient point).1 (f.valueAndGradient point).2 = false := by
  unfold advance at h
  split at h
  · cases h
  · next trial step hb =>
    obtain ⟨k, -, rfl, htrial, -⟩ := backtrack_eq_some hb
    split at h
    next value gradient hv =>
    split at h
    · cases h
    · next hfin =>
      cases h
      rw [hv]
      exact ⟨⟨_, htrial⟩, Bool.eq_false_iff.2 hfin⟩

theorem advance_eq_stalled_iff :
    advance f box rule it = .stalled ↔
      ∀ k < maxTrials, accepts f it (box.move it.point it.gradient (halved it.step k)) = false := by
  rw [← backtrack_eq_none_iff]
  unfold advance
  split
  · next hb => exact ⟨fun _ => hb, fun _ => rfl⟩
  · next trial step hb =>
    rw [hb]
    split
    split <;> exact ⟨nofun, nofun⟩

/-! ## Iterates -/

variable {start : List α} {settings : Settings α} {done : Nat}

/-- The search goes through the iterate after `done` iterations. The first one is at the point of
the box nearest to the start. From each another follows, unless its point is stationary enough or
the iterations are used up. -/
inductive Visits (f : Smooth α) (box : Box α) (start : List α) (settings : Settings α) :
    Nat → Iterate α → Prop
  | first {value : α} {gradient : List α}
      (h : f.valueAndGradient (box.project start) = (value, gradient))
      (hfin : allFinite value gradient = true) :
      Visits f box start settings 0 ⟨box.project start, value, gradient, firstStep gradient⟩
  | next {done : Nat} {it it' : Iterate α} (h : Visits f box start settings done it)
      (hlt : done < settings.maxIterations)
      (hs : ¬ box.stationarity it.point it.gradient ≤ settings.tolerance)
      (ha : advance f box settings.rule it = .next it') :
      Visits f box start settings (done + 1) it'

namespace Visits

theorem unique (h : Visits f box start settings done it)
    (h' : Visits f box start settings done it') : it = it' := by
  induction h generalizing it' with
  | first hv _ =>
    cases h' with
    | first hv' _ =>
      cases hv.symm.trans hv'
      rfl
  | next _ _ _ ha ih =>
    cases h' with
    | next h₁ _ _ ha' =>
      cases ih h₁
      cases ha.symm.trans ha'
      rfl

theorem le_maxIterations (h : Visits f box start settings done it) :
    done ≤ settings.maxIterations := by
  cases h with
  | first => exact Nat.zero_le _
  | next _ hlt => exact hlt

/-- What the search comes to is decided by the iterates from here on. -/
theorem minimize_eq_run (h : Visits f box start settings done it) :
    minimize f box start settings =
      run f box settings (settings.maxIterations - done) done it := by
  induction h with
  | first hv hfin => simp only [minimize, hv, hfin, if_true, Nat.sub_zero]
  | @next done it it' _ hlt hs ha ih =>
    obtain ⟨remaining, hremaining⟩ : ∃ r, settings.maxIterations - done = r + 1 :=
      ⟨settings.maxIterations - done - 1, by omega⟩
    have hrest : settings.maxIterations - (done + 1) = remaining := by omega
    rw [ih, hremaining, hrest, run]
    simp only [hs, if_false, ha]

theorem evaluated (h : Visits f box start settings done it) :
    f.valueAndGradient it.point = (it.value, it.gradient) := by
  cases h with
  | first hv _ => exact hv
  | next _ _ _ ha =>
    obtain ⟨_, _, _, _, hv, _⟩ := advance_eq_next ha
    exact hv

theorem finite (h : Visits f box start settings done it) :
    allFinite it.value it.gradient = true := by
  cases h with
  | first _ hfin => exact hfin
  | next _ _ _ ha =>
    obtain ⟨_, _, _, _, _, hfin, _⟩ := advance_eq_next ha
    exact hfin

end Visits

/-! ## Outcomes -/

/-- How the search ends with an iterate that it goes through after `done` iterations, or with the
iteration from it. -/
inductive Ends (f : Smooth α) (box : Box α) (settings : Settings α) (done : Nat) (it : Iterate α) :
    Outcome α → Prop
  | converged (hs : box.stationarity it.point it.gradient ≤ settings.tolerance) :
      Ends f box settings done it
        ⟨it.point, box.stationarity it.point it.gradient, done, .converged⟩
  | exhausted (hdone : done = settings.maxIterations)
      (hs : ¬ box.stationarity it.point it.gradient ≤ settings.tolerance) :
      Ends f box settings done it
        ⟨it.point, box.stationarity it.point it.gradient, done, .iterationLimit⟩
  | stalled (hs : ¬ box.stationarity it.point it.gradient ≤ settings.tolerance)
      (ha : advance f box settings.rule it = .stalled) :
      Ends f box settings done it
        ⟨it.point, box.stationarity it.point it.gradient, done, .stalled⟩
  | nonFinite {point : List α} (hlt : done < settings.maxIterations)
      (ha : advance f box settings.rule it = .nonFinite point) :
      Ends f box settings done it ⟨point, Scalar.nan, done + 1, .nonFinite⟩

/-- The induction is on the iterations that remain; what is carried along is the course so far. -/
theorem exists_ends_run (remaining : Nat) (h : Visits f box start settings done it)
    (hlimit : done + remaining = settings.maxIterations) :
    ∃ done' it', Visits f box start settings done' it' ∧
      Ends f box settings done' it' (run f box settings remaining done it) := by
  induction remaining generalizing done it with
  | zero =>
    refine ⟨done, it, h, ?_⟩
    rw [run]
    split
    · next hs => exact .converged hs
    · next hs => exact .exhausted hlimit hs
  | succ remaining ih =>
    have hlt : done < settings.maxIterations := by omega
    rw [run]
    split
    · next hs => exact ⟨done, it, h, .converged hs⟩
    · next hs =>
      split
      · next ha => exact ⟨done, it, h, .stalled hs ha⟩
      · next point ha => exact ⟨done, it, h, .nonFinite hlt ha⟩
      · next it' ha => exact ih (h.next hlt hs ha) (by omega)

/-- The search does not start where the function is not finite. Otherwise it ends in its course. -/
theorem minimize_cases (f : Smooth α) (box : Box α) (start : List α) (settings : Settings α) :
    (allFinite (f.valueAndGradient (box.project start)).1
          (f.valueAndGradient (box.project start)).2 = false ∧
        minimize f box start settings = ⟨box.project start, Scalar.nan, 0, .nonFinite⟩) ∨
      ∃ done it, Visits f box start settings done it ∧
        Ends f box settings done it (minimize f box start settings) := by
  cases hfin : allFinite (f.valueAndGradient (box.project start)).1
      (f.valueAndGradient (box.project start)).2 with
  | false =>
    refine .inl ⟨rfl, ?_⟩
    simp only [minimize, hfin]
    rfl
  | true =>
    have hfirst : Visits f box start settings 0 _ := .first rfl hfin
    rw [hfirst.minimize_eq_run]
    exact .inr (exists_ends_run _ hfirst (by omega))

/-! ## Points -/

/-- Points of the course have been cut back to the box, and none has more coordinates than the
start. A gradient with an entry for each coordinate keeps their number. -/
structure Cut (f : Smooth α) (box : Box α) (n : Nat) (point : List α) : Prop where
  projected : ∃ y, point = box.project y
  length_le : point.length ≤ n
  length_eq : Gradual f n → point.length = n

theorem cut_project {n : Nat} (h : start.length = n) : Cut f box n (box.project start) where
  projected := ⟨start, rfl⟩
  length_le := Nat.le_of_eq (by rw [Box.length_project, h])
  length_eq := fun _ => by rw [Box.length_project, h]

theorem Cut.move {n : Nat} {point gradient : List α} {value : α} (h : Cut f box n point)
    (hv : f.valueAndGradient point = (value, gradient)) (step : α) :
    Cut f box n (box.move point gradient step) where
  projected := ⟨_, rfl⟩
  length_le := by
    rw [Box.length_move]
    exact Nat.le_trans (Nat.min_le_left _ _) h.length_le
  length_eq := fun hf => by
    have hg := hf point (h.length_eq hf)
    rw [hv] at hg
    rw [Box.length_move, h.length_eq hf, hg, Nat.min_self]

theorem Visits.cut {n : Nat} (hstart : start.length = n)
    (h : Visits f box start settings done it) : Cut f box n it.point := by
  induction h with
  | first => exact cut_project hstart
  | next h _ _ ha ih =>
    obtain ⟨k, -, hpoint, -⟩ := advance_eq_next ha
    rw [hpoint]
    exact ih.move h.evaluated _

theorem Cut.contains [Ordered α] {n : Nat} {point : List α} (h : Cut f box n point)
    (hbox : box.Valid n) : box.Contains point := by
  obtain ⟨y, rfl⟩ := h.projected
  exact Box.contains_project hbox y

/-! ## What an outcome says -/

/-- The function has a finite value and a finite gradient at the point. -/
def FiniteAt (f : Smooth α) (point : List α) : Prop :=
  Scalar.isFinite (f.valueAndGradient point).1 = true ∧
    ∀ d ∈ (f.valueAndGradient point).2, Scalar.isFinite d = true

theorem allFinite_iff (f : Smooth α) (point : List α) :
    allFinite (f.valueAndGradient point).1 (f.valueAndGradient point).2 = true ↔
      FiniteAt f point := by
  rw [allFinite, Bool.and_eq_true, List.all_eq_true, FiniteAt]

theorem not_finiteAt_iff (f : Smooth α) (point : List α) :
    allFinite (f.valueAndGradient point).1 (f.valueAndGradient point).2 = false ↔
      ¬ FiniteAt f point := by
  rw [← allFinite_iff, Bool.not_eq_true]

theorem Visits.finiteAt (h : Visits f box start settings done it) : FiniteAt f it.point := by
  rw [← allFinite_iff, h.evaluated]
  exact h.finite

/-- What an outcome of a search from a start with `n` coordinates says is true: where its point is,
what ended the search, and how stationary the point is. -/
structure Outcome.Honest (f : Smooth α) (box : Box α) (start : List α) (settings : Settings α)
    (n : Nat) (o : Outcome α) : Prop where
  contained : box.Contains o.point
  length_le : o.point.length ≤ n
  length_eq : Gradual f n → o.point.length = n
  iterations_le : o.iterations ≤ settings.maxIterations
  nonFinite_iff : o.termination = .nonFinite ↔ ¬ FiniteAt f o.point
  stationarity_eq : o.termination ≠ .nonFinite →
    o.stationarity = box.stationarity o.point (f.valueAndGradient o.point).2
  converged_iff : o.termination ≠ .nonFinite →
    (o.termination = .converged ↔ o.stationarity ≤ settings.tolerance)
  refused_of_stalled : o.termination = .stalled →
    ∃ it, Visits f box start settings o.iterations it ∧ it.point = o.point ∧
      ∀ k < maxTrials, accepts f it (box.move it.point it.gradient (halved it.step k)) = false

variable [Ordered α] {n : Nat}

theorem honest_nonFinite {point : List α} {stationarity : α} (hbox : box.Valid n)
    (hcut : Cut f box n point) (hle : done ≤ settings.maxIterations) (h : ¬ FiniteAt f point) :
    Outcome.Honest f box start settings n ⟨point, stationarity, done, .nonFinite⟩ where
  contained := hcut.contains hbox
  length_le := hcut.length_le
  length_eq := hcut.length_eq
  iterations_le := hle
  nonFinite_iff := ⟨fun _ => h, fun _ => rfl⟩
  stationarity_eq := fun hn => absurd rfl hn
  converged_iff := fun hn => absurd rfl hn
  refused_of_stalled := nofun

/-- An outcome that is reported for an iterate of the course. -/
theorem Visits.honest (hbox : box.Valid n) (hstart : start.length = n)
    (h : Visits f box start settings done it) {termination : Termination}
    (hfinite : termination ≠ .nonFinite)
    (hconverged : termination = .converged ↔
      box.stationarity it.point it.gradient ≤ settings.tolerance)
    (hstalled : termination = .stalled → advance f box settings.rule it = .stalled) :
    Outcome.Honest f box start settings n
      ⟨it.point, box.stationarity it.point it.gradient, done, termination⟩ where
  contained := (h.cut hstart).contains hbox
  length_le := (h.cut hstart).length_le
  length_eq := (h.cut hstart).length_eq
  iterations_le := h.le_maxIterations
  nonFinite_iff := ⟨fun hn => absurd hn hfinite, fun hn => absurd h.finiteAt hn⟩
  stationarity_eq := fun _ => by rw [h.evaluated]
  converged_iff := fun _ => hconverged
  refused_of_stalled := fun hs => ⟨it, h, rfl, advance_eq_stalled_iff.1 (hstalled hs)⟩

/-- Whatever the function does, its search from a start of the right dimension in a valid box ends
with an outcome that says the truth. -/
theorem honest_minimize (f : Smooth α) (hbox : box.Valid n) (hstart : start.length = n)
    (settings : Settings α) :
    (minimize f box start settings).Honest f box start settings n := by
  rcases minimize_cases f box start settings with ⟨hfin, ho⟩ | ⟨done, it, hvisits, hends⟩
  · rw [ho]
    exact honest_nonFinite hbox (cut_project hstart) (Nat.zero_le _) ((not_finiteAt_iff f _).1 hfin)
  · generalize minimize f box start settings = o at hends ⊢
    cases hends with
    | converged hs => exact hvisits.honest hbox hstart nofun ⟨fun _ => hs, fun _ => rfl⟩ nofun
    | exhausted _ hs =>
      exact hvisits.honest hbox hstart nofun ⟨nofun, fun hle => absurd hle hs⟩ nofun
    | stalled hs ha =>
      exact hvisits.honest hbox hstart nofun ⟨nofun, fun hle => absurd hle hs⟩ fun _ => ha
    | nonFinite hlt ha =>
      obtain ⟨⟨step, rfl⟩, hfin⟩ := advance_eq_nonFinite ha
      exact honest_nonFinite hbox ((hvisits.cut hstart).move hvisits.evaluated step) hlt
        ((not_finiteAt_iff f _).1 hfin)

/-- Wherever a step is tried, the value is infinite, although the gradient is finite. -/
def cliff : Smooth Float := ⟨fun _ => Scalar.infinity, fun _ => (0, [1])⟩

def cliffBox : Box Float := ⟨[0], [Scalar.infinity]⟩

def cliffSettings : Settings Float := ⟨100, Scalar.ofDecimal 1 (-8), .barzilaiBorwein⟩

theorem honest_minimize_cliff :
    cliffBox.Valid 1 ∧ (minimize cliff cliffBox [5] cliffSettings).termination = .stalled ∧
      ∃ it, Visits cliff cliffBox [5] cliffSettings 0 it ∧ it.point = [5] ∧
        ∀ k < maxTrials,
          accepts cliff it (cliffBox.move it.point it.gradient (halved it.step k)) = false := by
  have hbox : cliffBox.Valid 1 := by
    refine ⟨rfl, rfl, fun p hp => ?_⟩
    obtain rfl := List.mem_singleton.1 hp
    decide +kernel
  have ho : (minimize cliff cliffBox [5] cliffSettings).termination = .stalled ∧
      (minimize cliff cliffBox [5] cliffSettings).iterations = 0 ∧
      (minimize cliff cliffBox [5] cliffSettings).point = [5] := by decide +kernel
  obtain ⟨hstalled, hiterations, hpoint⟩ := ho
  have hrefused :=
    (honest_minimize (n := 1) cliff hbox rfl cliffSettings).refused_of_stalled hstalled
  rw [hiterations, hpoint] at hrefused
  exact ⟨hbox, hstalled, hrefused⟩

end Optima.Descent
