import Optima.Descent
import Optima.Proofs.Box

/-!
What the search in a box guarantees of its outcome, whatever the function does.

* `Iterate.Sound`: an iterate carries the value and the gradient of its point.
* `Outcome.Faithful`: the point is one of the box, and what the outcome says of it is what the
  function gives there.
* `faithful_run`, `faithful_minimize`: a search ends with such an outcome.
-/

namespace Optima.Descent

variable {α : Type} [Scalar α]

/-- The point has been cut back to the box from one with `n` coordinates. -/
def Projected (box : Box α) (n : Nat) (point : List α) : Prop :=
  ∃ y, y.length = n ∧ point = box.project y

theorem Projected.length_eq {box : Box α} {n : Nat} {point : List α}
    (h : Projected box n point) : point.length = n := by
  obtain ⟨y, hy, rfl⟩ := h
  rw [Box.length_project, hy]

/-! ## Iterates -/

/-- The iterate has a point of the box, with the value and the gradient of the function there, and
these are finite. -/
structure Iterate.Sound (f : Smooth α) (box : Box α) (n : Nat) (it : Iterate α) : Prop where
  projected : Projected box n it.point
  evaluated : f.valueAndGradient it.point = (it.value, it.gradient)
  finite : allFinite it.value it.gradient = true

/-- The function gives a gradient with `n` entries at points with `n` coordinates. -/
def Gradual (f : Smooth α) (n : Nat) : Prop :=
  ∀ x, x.length = n → (f.valueAndGradient x).2.length = n

theorem point_of_backtrack {f : Smooth α} {box : Box α} {it : Iterate α} {count : Nat}
    {step step' : α} {trial : List α} (h : backtrack f box it count step = some (trial, step')) :
    trial = box.move it.point it.gradient step' := by
  induction count generalizing step with
  | zero => cases h
  | succ count ih =>
    rw [backtrack] at h
    split at h
    · cases h
      rfl
    · exact ih h

variable {f : Smooth α} {box : Box α} {n : Nat}

theorem Iterate.Sound.projected_move {it : Iterate α} (h : it.Sound f box n) (hf : Gradual f n)
    (step : α) : Projected box n (box.move it.point it.gradient step) := by
  refine ⟨_, ?_, rfl⟩
  have hg := hf it.point h.projected.length_eq
  rw [h.evaluated] at hg
  rw [List.length_zipWith, h.projected.length_eq, hg, Nat.min_self]

/-- What an iteration from a sound iterate comes to. -/
theorem advance_cases (hf : Gradual f n) {rule : StepRule} {it : Iterate α}
    (h : it.Sound f box n) :
    advance f box rule it = .stalled ∨
      (∃ point, advance f box rule it = .nonFinite point ∧ Projected box n point ∧
        allFinite (f.valueAndGradient point).1 (f.valueAndGradient point).2 = false) ∨
      ∃ it', advance f box rule it = .next it' ∧ it'.Sound f box n := by
  unfold advance
  split
  · exact .inl rfl
  · next trial step hb =>
    have hp : Projected box n trial := by
      rw [point_of_backtrack hb]
      exact h.projected_move hf step
    split
    next value gradient hv =>
    split
    · next hfin => exact .inr (.inr ⟨_, rfl, hp, hv, hfin⟩)
    · next hfin =>
      refine .inr (.inl ⟨trial, rfl, hp, ?_⟩)
      rw [hv]
      exact Bool.eq_false_iff.2 hfin

/-! ## Outcomes -/

/-- The outcome has a point of the box. It ends for a number that is not finite exactly if the value
or the gradient there is not finite, and else tells how stationary the point is. -/
structure Outcome.Faithful (f : Smooth α) (box : Box α) (n : Nat) (o : Outcome α) : Prop where
  projected : Projected box n o.point
  nonFinite_iff : o.termination = .nonFinite ↔
    allFinite (f.valueAndGradient o.point).1 (f.valueAndGradient o.point).2 = false
  stationarity_eq : o.termination ≠ .nonFinite →
    o.stationarity = box.stationarity o.point (f.valueAndGradient o.point).2

theorem Iterate.Sound.faithful {it : Iterate α} (h : it.Sound f box n) {done : Nat}
    {termination : Termination} (ht : termination ≠ .nonFinite) :
    Outcome.Faithful f box n
      ⟨it.point, box.stationarity it.point it.gradient, done, termination⟩ where
  projected := h.projected
  nonFinite_iff := by
    rw [h.evaluated, h.finite]
    exact ⟨fun hn => absurd hn ht, nofun⟩
  stationarity_eq := fun _ => by rw [h.evaluated]

theorem faithful_nonFinite {point : List α} {done : Nat} {stationarity : α}
    (hp : Projected box n point)
    (h : allFinite (f.valueAndGradient point).1 (f.valueAndGradient point).2 = false) :
    Outcome.Faithful f box n ⟨point, stationarity, done, .nonFinite⟩ where
  projected := hp
  nonFinite_iff := ⟨fun _ => h, fun _ => rfl⟩
  stationarity_eq := fun hn => absurd rfl hn

theorem faithful_run (hf : Gradual f n) (settings : Settings α) (remaining done : Nat)
    {it : Iterate α} (h : it.Sound f box n) :
    (run f box settings remaining done it).Faithful f box n := by
  induction remaining generalizing done it with
  | zero =>
    rw [run]
    exact h.faithful (by split <;> nofun)
  | succ remaining ih =>
    rw [run]
    split
    · exact h.faithful nofun
    · rcases advance_cases hf h with ha | ⟨point, ha, hp, hn⟩ | ⟨it', ha, hs⟩
      · rw [ha]
        exact h.faithful nofun
      · rw [ha]
        exact faithful_nonFinite hp hn
      · rw [ha]
        exact ih (done + 1) hs

theorem faithful_minimize (hf : Gradual f n) {start : List α} (hs : start.length = n)
    (settings : Settings α) : (minimize f box start settings).Faithful f box n := by
  have hp : Projected box n (box.project start) := ⟨start, hs, rfl⟩
  simp only [minimize]
  split
  · next hfin => exact faithful_run hf settings _ 0 ⟨hp, rfl, hfin⟩
  · next hfin => exact faithful_nonFinite hp (Bool.eq_false_iff.2 hfin)

end Optima.Descent
