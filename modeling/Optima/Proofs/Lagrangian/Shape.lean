import Optima.Proofs.Box
import Optima.Proofs.Descent
import Optima.Proofs.Lagrangian.Model
import Optima.Proofs.Lagrangian.Rounds

/-!
What rounds keep in any arithmetic: the dimensions, and that the point is one of the box.

* `State.Shaped`: a point of the box, and one multiplier for each constraint.
* `RoundTo.forall₂_multipliers`: what an update keeps of one pair of multipliers a round keeps of all.
* `faithful_outcome`: the descent within a round is faithful to its subproblem.
* `RoundTo.projected`, `RoundTo.allFinite`: a regular round leads to a point of the box where the
  subproblem has a finite value and a finite gradient.
* `kept_shaped`, `shaped_startState`: rounds keep the shape, and the first state has it.
-/

namespace Optima.Lagrangian

variable {α : Type} [Scalar α] {p : Program α} {model : Model α} {s : Settings α} {box : Box α}
  {bounds : List (Bounds α)} {state : State α} {point : List α} {multipliers : List (Multiplier α)}
  {measures : Measures α}

/-! ## Lengths -/

theorem Model.length_constraintValues (model : Model α) (x : List α) :
    (model.constraintValues x).length = model.constraintCount := by
  rw [Model.constraintValues, List.length_map, Model.constraintCount]

omit [Scalar α] in
theorem length_boundsOf {b : Box α} {m : Nat} (hl : b.lower.length = m)
    (hu : b.upper.length = m) : (boundsOf b).length = m := by
  rw [boundsOf, List.length_zipWith, hl, hu, Nat.min_self]

omit [Scalar α] in
theorem length_termsOf (h : multipliers.length = bounds.length) :
    (termsOf bounds multipliers).length = bounds.length := by
  rw [termsOf, List.length_zipWith, h, Nat.min_self]

theorem RoundTo.length_multipliers
    (h : RoundTo model s box bounds state point multipliers measures)
    (hb : bounds.length = model.constraintCount)
    (hs : state.multipliers.length = model.constraintCount) :
    multipliers.length = model.constraintCount := by
  rw [h.multipliers_eq, List.length_zipWith, length_termsOf (hs.trans hb.symm), hb,
    Model.length_constraintValues, Nat.min_self]

/-! ## Multipliers -/

theorem forall₂_replicate {β γ : Type} {R : β → γ → Prop} {c : γ} (hR : ∀ b, R b c)
    {bs : List β} {m : Nat} (hm : bs.length = m) : List.Forall₂ R bs (List.replicate m c) := by
  refine List.forall₂_iff_zip.2 ⟨by rw [List.length_replicate, hm], fun {b d} h => ?_⟩
  rw [List.eq_of_mem_replicate (List.of_mem_zip h).2]
  exact hR b

/-- What an update keeps of one pair of multipliers it keeps of all pairs. -/
theorem forall₂_updateMultiplier {P : Bounds α → Multiplier α → Prop} {penalty : α}
    (hP : ∀ (term : Term α) (c : α), P term.bounds term.multiplier →
      P term.bounds (updateMultiplier penalty term c))
    {mus : List (Multiplier α)} (h : List.Forall₂ P bounds mus) {g : List α}
    (hg : g.length = bounds.length) :
    List.Forall₂ P bounds (List.zipWith (updateMultiplier penalty) (termsOf bounds mus) g) := by
  induction h generalizing g with
  | nil => exact .nil
  | @cons b mu bounds mus hmu _ ih =>
    cases g with
    | nil => cases hg
    | cons c g => exact .cons (hP ⟨b, mu⟩ c hmu) (ih (Nat.succ.inj hg))

theorem RoundTo.forall₂_multipliers {P : Bounds α → Multiplier α → Prop}
    (hP : ∀ (term : Term α) (c : α), P term.bounds term.multiplier →
      P term.bounds (updateMultiplier state.penalty term c))
    (h : RoundTo model s box bounds state point multipliers measures)
    (hb : bounds.length = model.constraintCount)
    (hs : List.Forall₂ P bounds state.multipliers) : List.Forall₂ P bounds multipliers := by
  rw [h.multipliers_eq]
  exact forall₂_updateMultiplier hP hs ((model.length_constraintValues point).trans hb.symm)

/-! ## The descent within a round -/

theorem gradual_subproblem (hm : model.Compiles p) :
    Descent.Gradual (subproblemOf model bounds state).smooth p.decisions.length := fun x _ =>
  (Model.length_lagrangianGradient model x _).trans hm.gradient.length_eq.symm

theorem faithful_outcome (hm : model.Compiles p) (hs : state.point.length = p.decisions.length) :
    (outcomeOf model s box bounds state).Faithful (subproblemOf model bounds state).smooth box
      p.decisions.length :=
  Descent.faithful_minimize (gradual_subproblem hm) hs s.inner

namespace RoundTo

variable (hm : model.Compiles p) (hs : state.point.length = p.decisions.length)
  (h : RoundTo model s box bounds state point multipliers measures)

include hm hs h

theorem projected : Descent.Projected box p.decisions.length point :=
  h.point_eq ▸ (faithful_outcome hm hs).projected

theorem allFinite :
    Descent.allFinite ((subproblemOf model bounds state).value point)
      (model.lagrangianGradient point
        ((subproblemOf model bounds state).weights (model.constraintValues point))) = true := by
  have hreg := mt (faithful_outcome hm hs).nonFinite_iff.2 h.regular
  rw [← h.point_eq] at hreg
  exact Bool.not_eq_false _ ▸ hreg

end RoundTo

/-! ## The invariant -/

/-- What holds of the state between rounds, for `n` variables and `m` constraints. -/
structure State.Shaped (box : Box α) (n m : Nat) (state : State α) : Prop where
  projected : Descent.Projected box n state.point
  length_multipliers : state.multipliers.length = m

theorem kept_shaped (hm : model.Compiles p) (hb : bounds.length = model.constraintCount) :
    Kept model s box bounds (State.Shaped box p.decisions.length model.constraintCount) :=
  fun _ _ _ _ hs h =>
    { projected := h.projected hm hs.projected.length_eq
      length_multipliers := h.length_multipliers hb hs.length_multipliers }

theorem shaped_startState {inv : Invocation α} {n : Nat} (hg : inv.guess.length = n) (m : Nat) :
    (startState s inv m).Shaped inv.decisions n m where
  projected := ⟨_, by rw [List.length_map, hg], rfl⟩
  length_multipliers := List.length_replicate

theorem solve_eq_rounds {inv : Invocation α}
    (hv : inv.fault? model.size model.constraintCount = none) :
    (solve model s inv).1 = (rounds model s inv.decisions (boundsOf inv.constraints)
      s.maxIterations 0 (startState s inv model.constraintCount)).1 := by
  simp only [solve, search, hv]

theorem solve_eq_rejected {inv : Invocation α} {fault : Invocation.Fault α}
    (hv : inv.fault? model.size model.constraintCount = some fault) :
    (solve model s inv).1 =
      Output.rejected inv.guess model.size model.constraintCount := by
  simp only [solve, search, hv]

end Optima.Lagrangian
