import Optima.Proofs.Lagrangian.Multipliers
import Optima.Proofs.Lagrangian.Shape

/-!
What a regular round leads to, in exact arithmetic.

* `State.Sound`: the invariant of the rounds. The point has the right dimension, the multipliers are
  admissible, and the penalty is positive.
* `RoundTo.weights_eq`: the descent has seen the constraints with the new multipliers as weights.
* `RoundTo.gradient_finite`, `RoundTo.stationarity_eq`: so the gradient of the Lagrangian at the new
  multipliers is what its stationarity was measured with.
* `kept_sound`, `sound_startState`: rounds keep the invariant, and the first state has it.
-/

namespace Optima.Lagrangian

open Exact (finite)

variable {F : Type} [Field F] [LinearOrder F] [Elementary F]

/-! ## Multipliers -/

theorem weights_eq_map_net [IsStrictOrderedRing F] {bounds : List (Bounds (Exact F))}
    {mus : List (Multiplier (Exact F))}
    (h : List.Forall₂ Multiplier.Admissible bounds mus) {g : List (Exact F)} {penalty : Exact F}
    (hp : 0 < penalty) (hg : ∀ c ∈ g, Scalar.isFinite c = true)
    (hv : ∀ v ∈ List.zipWith (fun term c => Term.value term penalty c) (termsOf bounds mus) g,
      ∃ z, v = finite z) :
    List.zipWith (fun term c => Term.weight term penalty c) (termsOf bounds mus) g =
      (List.zipWith (updateMultiplier penalty) (termsOf bounds mus) g).map Multiplier.net := by
  induction h generalizing g with
  | nil => rfl
  | @cons b mu bounds mus hmu _ ih =>
    cases g with
    | nil => rfl
    | cons c g =>
      obtain ⟨⟨z, hz⟩, hvs⟩ := List.forall_mem_cons.1 hv
      obtain ⟨hc, hgs⟩ := List.forall_mem_cons.1 hg
      obtain ⟨rho, rfl⟩ := Term.penalty_finite hz
      obtain ⟨x, rfl⟩ := Exact.isFinite_iff.1 hc
      exact congrArg₂ List.cons (Term.weight_eq_net hp hmu x) (ih hgs hvs)

/-! ## The invariant -/

/-- What holds of the state between rounds, for `n` variables. -/
structure State.Sound (bounds : List (Bounds (Exact F))) (n : Nat) (state : State (Exact F)) :
    Prop where
  length_point : state.point.length = n
  admissible : List.Forall₂ Multiplier.Admissible bounds state.multipliers
  penalty_pos : 0 < state.penalty

variable {p : Program (Exact F)} {model : Model (Exact F)} {s : Settings (Exact F)}
  {box : Box (Exact F)} {bounds : List (Bounds (Exact F))} {state : State (Exact F)}
  {point : List (Exact F)} {multipliers : List (Multiplier (Exact F))}
  {measures : Measures (Exact F)}

namespace RoundTo

variable (hm : model.Compiles p) (hs : state.Sound bounds p.decisions.length)
  (h : RoundTo model s box bounds state point multipliers measures)

include hm hs h

/-- The value of the subproblem is a number, and so are all its parts. -/
theorem value_finite :
    (∃ v, valueAt model.objective point = .finite v) ∧
      ∀ v ∈ List.zipWith (fun term c => Term.value term state.penalty c)
        (termsOf bounds state.multipliers) (model.constraintValues point), ∃ z, v = .finite z := by
  have hfin := h.allFinite hm hs.length_point
  rw [Descent.allFinite, Bool.and_eq_true] at hfin
  obtain ⟨z, hz⟩ := Exact.isFinite_iff.1 hfin.1
  obtain ⟨v, w, hv, hw, -⟩ := Exact.add_eq_finite.1 hz
  exact ⟨⟨v, hv⟩, (Exact.foldl_add_eq_finite hw).2⟩

variable [IsStrictOrderedRing F]

theorem weights_eq :
    (subproblemOf model bounds state).weights (model.constraintValues point) =
      multipliers.map Multiplier.net := by
  rw [h.multipliers_eq]
  exact weights_eq_map_net hs.admissible hs.penalty_pos (List.all_eq_true.1 h.finite)
    (h.value_finite hm hs).2

theorem gradient_finite :
    ∀ v ∈ model.lagrangianGradient point (multipliers.map Multiplier.net), ∃ z, v = .finite z := by
  have hfin := h.allFinite hm hs.length_point
  rw [Descent.allFinite, Bool.and_eq_true, h.weights_eq hm hs, List.all_eq_true] at hfin
  exact fun v hv => Exact.isFinite_iff.1 (hfin.2 v hv)

theorem stationarity_eq : measures.stationarity =
    box.stationarity point (model.lagrangianGradient point (multipliers.map Multiplier.net)) := by
  rw [h.measures_eq, ← h.weights_eq hm hs, h.point_eq]
  exact (faithful_outcome hm hs.length_point).stationarity_eq h.regular

end RoundTo

/-! ## Rounds keep it -/

theorem RoundTo.admissible (hs : state.Sound bounds p.decisions.length)
    (hb : bounds.length = model.constraintCount)
    (h : RoundTo model s box bounds state point multipliers measures) :
    List.Forall₂ Multiplier.Admissible bounds multipliers :=
  h.forall₂_multipliers (fun _ c hmu => admissible_updateMultiplier hmu state.penalty c) hb
    hs.admissible

theorem kept_sound [IsStrictOrderedRing F] (hm : model.Compiles p) (hpos : s.Positive)
    (hb : bounds.length = model.constraintCount) :
    Kept model s box bounds (State.Sound bounds p.decisions.length) := fun _ _ _ _ hs h =>
  { length_point := (h.projected hm hs.length_point).length_eq
    admissible := h.admissible hs hb
    penalty_pos := nextPenalty_pos hpos hs.penalty_pos _ _ }

theorem sound_startState {inv : Invocation (Exact F)} {n m : Nat} (hpos : s.Positive)
    (hg : inv.guess.length = n) (hb : bounds.length = m) :
    (startState s inv m).Sound bounds n where
  length_point := by rw [startState, startPoint, Box.length_project, List.length_map, hg]
  admissible := forall₂_replicate admissible_zero hb
  penalty_pos := hpos.firstPenalty

end Optima.Lagrangian
