import Optima.Lagrangian.Solve

/-!
Rounds of the augmented Lagrangian method, and the one that a successful output comes from.

* `RoundTo`: a round ends regularly at a point, with new multipliers and measures.
* `round_cases`, `ending?_cases`: everything that a round and its end can come to.
* `exists_roundTo_of_success`: a successful output after at least one round is that of a regular
  round from a state with any invariant that rounds keep.
-/

namespace Optima.Lagrangian

variable {α : Type} [Scalar α] {model : Model α} {s : Settings α} {box : Box α}
  {bounds : List (Bounds α)}

/-! ## One round -/

/-- The subproblem of a state. -/
def subproblemOf (model : Model α) (bounds : List (Bounds α)) (state : State α) : Subproblem α :=
  ⟨model, termsOf bounds state.multipliers, state.penalty⟩

/-- How the descent within a round ends. -/
def outcomeOf (model : Model α) (s : Settings α) (box : Box α) (bounds : List (Bounds α))
    (state : State α) : Descent.Outcome α :=
  Descent.minimize (subproblemOf model bounds state).smooth box state.point s.inner

/-- The round from the state reaches the point with finite numbers, and moves the multipliers. -/
structure RoundTo (model : Model α) (s : Settings α) (box : Box α) (bounds : List (Bounds α))
    (state : State α) (point : List α) (multipliers : List (Multiplier α)) (measures : Measures α) :
    Prop where
  point_eq : point = (outcomeOf model s box bounds state).point
  regular : (outcomeOf model s box bounds state).termination ≠ .nonFinite
  finite : (model.constraintValues point).all Scalar.isFinite = true
  multipliers_eq : multipliers =
    List.zipWith (updateMultiplier state.penalty) (termsOf bounds state.multipliers)
      (model.constraintValues point)
  measures_eq : measures =
    Measures.ofValues (termsOf bounds multipliers) (model.constraintValues point)
      (outcomeOf model s box bounds state).stationarity

/-- The state for the round after one that has not ended the method. -/
def nextState (s : Settings α) (state : State α) (point : List α)
    (multipliers : List (Multiplier α)) (measures : Measures α) : State α :=
  ⟨point, multipliers, nextPenalty s state.penalty state.measures measures, measures⟩

/-- The output of a regular round. -/
def outputAt (model : Model α) (point : List α) (multipliers : List (Multiplier α))
    (status : Status) (number : Nat) : Output α :=
  output model point (model.constraintValues point) (multipliers.map Multiplier.net) status number

/-- The output of a round that meets a number that is not finite. -/
def invalidOutput (model : Model α) (point : List α) (number : Nat) : Output α :=
  output model point (model.constraintValues point)
    (List.replicate (model.constraintValues point).length 0) .invalidNumber number

theorem round_cases (model : Model α) (s : Settings α) (box : Box α) (bounds : List (Bounds α))
    (number : Nat) (state : State α) :
    (round model s box bounds number state).1 =
        .done (invalidOutput model (outcomeOf model s box bounds state).point number) ∨
      ∃ point multipliers measures,
        RoundTo model s box bounds state point multipliers measures ∧
          ((∃ status, ending? s state.penalty state.measures measures = some status ∧
              (round model s box bounds number state).1 =
                .done (outputAt model point multipliers status number)) ∨
            ending? s state.penalty state.measures measures = none ∧
              (round model s box bounds number state).1 =
                .next (nextState s state point multipliers measures)) := by
  simp only [round]
  split
  · exact .inl rfl
  · next h =>
    obtain ⟨hreg, hfin⟩ := not_or.1 h
    refine .inr ⟨_, _, _, ⟨rfl, hreg, Bool.not_eq_false _ ▸ hfin, rfl, rfl⟩, ?_⟩
    split
    · next status he => exact .inl ⟨status, he, rfl⟩
    · next he => exact .inr ⟨he, rfl⟩

/-- Everything that the end of a round can come to. -/
theorem ending?_cases (s : Settings α) (penalty : α) (before now : Measures α) :
    (now.withinStrict s = true ∧ ending? s penalty before now = some .solved) ∨
      now.withinStrict s = false ∧
        (ending? s penalty before now = none ∨
          (s.violationTolerance < now.violation ∧ stalled before now = true ∧
              s.maxPenalty ≤ penalty) ∧
            ((now.withinAcceptable s = true ∧
                ending? s penalty before now = some .acceptable) ∨
              now.withinAcceptable s = false ∧
                ending? s penalty before now = some .infeasible)) := by
  unfold ending?
  split
  · next hstrict => exact .inl ⟨hstrict, rfl⟩
  · next hstrict =>
    refine .inr ⟨Bool.eq_false_iff.2 hstrict, ?_⟩
    split
    · next hstall =>
      refine .inr ⟨hstall, ?_⟩
      split
      · next ha => exact .inl ⟨ha, rfl⟩
      · next ha => exact .inr ⟨Bool.eq_false_iff.2 ha, rfl⟩
    · exact .inl rfl

theorem within_of_ending? {penalty : α} {before now : Measures α} {status : Status}
    (h : ending? s penalty before now = some status) :
    (status = .solved → now.withinStrict s = true) ∧
      (status = .acceptable → now.withinAcceptable s = true) := by
  rcases ending?_cases s penalty before now with
    ⟨hs, he⟩ | ⟨-, he | ⟨-, ⟨ha, he⟩ | ⟨-, he⟩⟩⟩ <;> rw [he] at h <;> cases h
  · exact ⟨fun _ => hs, nofun⟩
  · exact ⟨nofun, fun _ => ha⟩
  · exact ⟨nofun, nofun⟩

/-! ## All rounds -/

theorem rounds_done {remaining done : Nat} {state : State α} {out : Output α}
    (h : (round model s box bounds (done + 1) state).1 = .done out) :
    (rounds model s box bounds (remaining + 1) done state).1 = out := by
  rw [rounds]
  split
  · next out' reports hr =>
    rw [hr] at h
    cases h
    rfl
  · next state' reports hr =>
    rw [hr] at h
    cases h

theorem rounds_next {remaining done : Nat} {state state' : State α}
    (h : (round model s box bounds (done + 1) state).1 = .next state') :
    (rounds model s box bounds (remaining + 1) done state).1 =
      (rounds model s box bounds remaining (done + 1) state').1 := by
  rw [rounds]
  split
  · next out reports hr =>
    rw [hr] at h
    cases h
  · next state'' reports hr =>
    rw [hr] at h
    cases h
    rfl

/-- The output is that of a regular round from a state with the invariant, and the measures of the
round are within the tolerances that its status stands for. -/
def Concludes (model : Model α) (s : Settings α) (box : Box α) (bounds : List (Bounds α))
    (Inv : State α → Prop) (out : Output α) : Prop :=
  ∃ state point multipliers measures,
    Inv state ∧ RoundTo model s box bounds state point multipliers measures ∧
      out = outputAt model point multipliers out.status out.iterations ∧
      (out.status = .solved → measures.withinStrict s = true) ∧
      (out.status = .acceptable → measures.withinAcceptable s = true)

/-- Rounds keep the invariant. -/
def Kept (model : Model α) (s : Settings α) (box : Box α) (bounds : List (Bounds α))
    (Inv : State α → Prop) : Prop :=
  ∀ state point multipliers measures, Inv state →
    RoundTo model s box bounds state point multipliers measures →
      Inv (nextState s state point multipliers measures)

/-- The induction is on the rounds that remain; what is carried along is the invariant and, after
the first round, the regular round that has led to the state. -/
theorem exists_roundTo_of_success {Inv : State α → Prop} (hk : Kept model s box bounds Inv)
    (remaining done : Nat) {state : State α} (hi : Inv state)
    (hp : 1 ≤ done → ∃ before, Inv before ∧
      RoundTo model s box bounds before state.point state.multipliers state.measures)
    (hs : (rounds model s box bounds remaining done state).1.success = true)
    (hn : 1 ≤ (rounds model s box bounds remaining done state).1.iterations) :
    Concludes model s box bounds Inv (rounds model s box bounds remaining done state).1 := by
  induction remaining generalizing done state with
  | zero =>
    obtain ⟨before, hib, hround⟩ := hp hn
    refine ⟨before, _, _, _, hib, hround, rfl, fun h => ?_, fun h => ?_⟩
    · simp only [rounds, exhausted, output] at h
      split at h <;> cases h
    · simp only [rounds, exhausted, output] at h
      split at h
      · next ha => exact ha
      · cases h
  | succ remaining ih =>
    rcases round_cases model s box bounds (done + 1) state with ho |
      ⟨point, multipliers, measures, hround, ⟨status, he, ho⟩ | ⟨-, ho⟩⟩
    · rw [rounds_done ho] at hs
      cases hs
    · rw [rounds_done ho]
      obtain ⟨hsolved, hacceptable⟩ := within_of_ending? he
      exact ⟨state, point, multipliers, measures, hi, hround, rfl, hsolved, hacceptable⟩
    · rw [rounds_next ho] at hs hn ⊢
      exact ih (done + 1) (hk _ _ _ _ hi hround) (fun _ => ⟨state, hi, hround⟩) hs hn

end Optima.Lagrangian
