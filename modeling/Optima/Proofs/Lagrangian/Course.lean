import Optima.Proofs.Lagrangian.Shape

/-!
The course of the augmented Lagrangian method: its states, round after round, and where it ends.

* `stateAfter?`: the state after a number of rounds, if the method has not ended before.
* `LeadsTo`: a regular round that does not end the method; `exists_leadsTo`: every state but the
  first comes from one.
* `invariant_stateAfter?`: what the first state satisfies and rounds keep holds of every state; it
  may depend on the number of rounds.
* `Finishes`: how an output comes out of the course; `finishes_solve`: every output does that is not
  a rejection.
-/

namespace Optima.Lagrangian

variable {α : Type} [Scalar α] {model : Model α} {s : Settings α} {inv : Invocation α}
  {state later : State α} {out : Output α} {n : Nat}

/-! ## States -/

/-- The state that a round leads to, if it does not end the method. -/
def Progress.state? : Progress α → Option (State α)
  | .done _ => none
  | .next state => some state

/-- The state after `n` rounds, if none of them has ended the method. -/
def stateAfter? (model : Model α) (s : Settings α) (inv : Invocation α) : Nat → Option (State α)
  | 0 => some (startState s inv model.constraintCount)
  | n + 1 => (stateAfter? model s inv n).bind fun state =>
      (round model s inv.decisions (boundsOf inv.constraints) (n + 1) state).1.state?

/-- The round from the state is regular, does not end the method and hands over the later state. -/
def LeadsTo (model : Model α) (s : Settings α) (inv : Invocation α) (state later : State α) :
    Prop :=
  ∃ point multipliers measures,
    RoundTo model s inv.decisions (boundsOf inv.constraints) state point multipliers measures ∧
      ending? s state.penalty state.measures measures = none ∧
      later = nextState s state point multipliers measures

theorem leadsTo_of_round (number : Nat)
    (h : (round model s inv.decisions (boundsOf inv.constraints) number state).1 = .next later) :
    LeadsTo model s inv state later := by
  rcases round_cases model s inv.decisions (boundsOf inv.constraints) number state with ho |
    ⟨point, multipliers, measures, hround, ⟨status, -, ho⟩ | ⟨hnone, ho⟩⟩
  · rw [ho] at h
    cases h
  · rw [ho] at h
    cases h
  · rw [ho] at h
    cases h
    exact ⟨point, multipliers, measures, hround, hnone, rfl⟩

theorem exists_leadsTo (h : stateAfter? model s inv (n + 1) = some later) :
    ∃ state, stateAfter? model s inv n = some state ∧ LeadsTo model s inv state later := by
  obtain ⟨state, hstate, hnext⟩ := Option.bind_eq_some_iff.1 h
  refine ⟨state, hstate, leadsTo_of_round (n + 1) ?_⟩
  cases hr : (round model s inv.decisions (boundsOf inv.constraints) (n + 1) state).1 with
  | done out =>
    rw [hr] at hnext
    cases hnext
  | next state' =>
    rw [hr] at hnext
    cases hnext
    rfl

theorem stateAfter?_succ (hstate : stateAfter? model s inv n = some state)
    (h : (round model s inv.decisions (boundsOf inv.constraints) (n + 1) state).1 = .next later) :
    stateAfter? model s inv (n + 1) = some later := by
  rw [stateAfter?, hstate, Option.bind_some, h]
  rfl

theorem invariant_stateAfter? {I : Nat → State α → Prop}
    (hzero : I 0 (startState s inv model.constraintCount))
    (hsucc : ∀ n state later, I n state → LeadsTo model s inv state later → I (n + 1) later)
    (h : stateAfter? model s inv n = some state) : I n state := by
  induction n generalizing state with
  | zero =>
    cases h
    exact hzero
  | succ n ih =>
    obtain ⟨before, hbefore, hleads⟩ := exists_leadsTo h
    exact hsucc n before state (ih hbefore) hleads

theorem exists_stateAfter?_of_le (h : stateAfter? model s inv n = some state) {k : Nat}
    (hk : k ≤ n) : ∃ before, stateAfter? model s inv k = some before := by
  induction n generalizing state with
  | zero =>
    obtain rfl := Nat.le_zero.1 hk
    exact ⟨state, h⟩
  | succ n ih =>
    rcases Nat.le_succ_iff.1 hk with hk | rfl
    · obtain ⟨before, hbefore, -⟩ := exists_leadsTo h
      exact ih hbefore hk
    · exact ⟨state, h⟩

/-! ## Outputs -/

/-- The output comes from the state after `done` rounds: from one more round, which ends the method,
or because the rounds are used up. -/
inductive Finishes (model : Model α) (s : Settings α) (inv : Invocation α) (done : Nat)
    (state : State α) : Output α → Prop
  | invalid (hlt : done < s.maxIterations) :
      Finishes model s inv done state (invalidOutput model
        (outcomeOf model s inv.decisions (boundsOf inv.constraints) state).point (done + 1))
  | ended {point : List α} {multipliers : List (Multiplier α)} {measures : Measures α}
      {status : Status} (hlt : done < s.maxIterations)
      (hround : RoundTo model s inv.decisions (boundsOf inv.constraints) state point multipliers
        measures)
      (hstatus : ending? s state.penalty state.measures measures = some status) :
      Finishes model s inv done state (outputAt model point multipliers status (done + 1))
  | exhausted (hdone : done = s.maxIterations) :
      Finishes model s inv done state (exhausted model s done state)

/-- The induction is on the rounds that remain; what is carried along is the state so far. -/
theorem finishes_rounds (remaining done : Nat) (hstate : stateAfter? model s inv done = some state)
    (hlimit : done + remaining = s.maxIterations) :
    ∃ done' state', stateAfter? model s inv done' = some state' ∧
      Finishes model s inv done' state'
        (rounds model s inv.decisions (boundsOf inv.constraints) remaining done state).1 := by
  induction remaining generalizing done state with
  | zero => exact ⟨done, state, hstate, .exhausted hlimit⟩
  | succ remaining ih =>
    have hlt : done < s.maxIterations := by omega
    rcases round_cases model s inv.decisions (boundsOf inv.constraints) (done + 1) state with ho |
      ⟨point, multipliers, measures, hround, ⟨status, he, ho⟩ | ⟨-, ho⟩⟩
    · rw [rounds_done ho]
      exact ⟨done, state, hstate, .invalid hlt⟩
    · rw [rounds_done ho]
      exact ⟨done, state, hstate, .ended hlt hround he⟩
    · rw [rounds_next ho]
      exact ih (done + 1) (stateAfter?_succ hstate ho) (by omega)

theorem finishes_solve (hv : inv.fault? model.size model.constraintCount = none) :
    ∃ done state, stateAfter? model s inv done = some state ∧
      Finishes model s inv done state (solve model s inv).1 := by
  rw [solve_eq_rounds hv]
  exact finishes_rounds s.maxIterations 0 rfl (Nat.zero_add _)

end Optima.Lagrangian
