import Optima.Lagrangian.Solve
import Optima.Proofs.Lagrangian.Settings
import Optima.Proofs.Scalar.Exact

/-!
The update of multipliers in exact arithmetic.

* `Multiplier.Admissible`: the multipliers of a constraint are numbers, none is negative, and that
  of an infinite side is zero.
* `admissible_updateMultiplier`: an update keeps that.
* `Term.weight_eq_net`: the weight of a constraint in the gradient of the subproblem is its
  multiplier after the update.
* `nextPenalty_pos`: the penalty stays positive.
-/

namespace Optima.Lagrangian

open Exact (finite)

variable {F : Type} [Field F] [LinearOrder F] [Elementary F]

/-! ## Sides of a constraint -/

/-- A multiplier of one side: a number that is not negative, and zero if the side is infinite. -/
def SideMultiplier (bound lam : Exact F) : Prop :=
  ∃ y, lam = finite y ∧ 0 ≤ y ∧ (Scalar.isFinite bound = false → y = 0)

structure Multiplier.Admissible (bounds : Bounds (Exact F)) (mu : Multiplier (Exact F)) :
    Prop where
  lower : SideMultiplier bounds.lower mu.lower
  upper : SideMultiplier bounds.upper mu.upper

theorem admissible_zero (bounds : Bounds (Exact F)) : Multiplier.Admissible bounds ⟨0, 0⟩ :=
  ⟨⟨0, rfl, le_rfl, fun _ => rfl⟩, ⟨0, rfl, le_rfl, fun _ => rfl⟩⟩

/-- The move of a multiplier along a violation cannot leave the numbers: where the product is
undefined, zero is the larger one. -/
theorem sideMultiplier_move {bound lam : Exact F} (hb : Scalar.isFinite bound = true)
    (hl : SideMultiplier bound lam) (penalty violation : Exact F) :
    SideMultiplier bound (Scalar.max (lam + penalty * violation) 0) := by
  obtain ⟨y, rfl, -, -⟩ := hl
  rcases Exact.mul_finite_or_undefined penalty violation with ⟨z, hz⟩ | hz
  · refine ⟨max (y + z) 0, ?_, le_max_right _ _, by rw [hb]; nofun⟩
    rw [hz, Exact.finite_add, Exact.zero_def, Exact.max_finite]
  · refine ⟨0, ?_, le_rfl, fun _ => rfl⟩
    rw [hz]
    exact Exact.max_undefined_finite 0

theorem sideMultiplier_update {bound lam : Exact F} (h : SideMultiplier bound lam)
    (penalty violation : Exact F) :
    SideMultiplier bound
      (if Scalar.isFinite bound then Scalar.max (lam + penalty * violation) 0 else lam) := by
  split
  · next hfin => exact sideMultiplier_move hfin h penalty violation
  · exact h

theorem admissible_updateMultiplier {term : Term (Exact F)}
    (h : term.multiplier.Admissible term.bounds) (penalty c : Exact F) :
    (updateMultiplier penalty term c).Admissible term.bounds where
  lower := sideMultiplier_update h.lower penalty _
  upper := sideMultiplier_update h.upper penalty _

/-! ## Weights -/

/-- A value of the subproblem that is a number needs a penalty that is one. -/
theorem Term.penalty_finite {term : Term (Exact F)} {penalty c : Exact F} {z : F}
    (h : term.value penalty c = finite z) : ∃ rho, penalty = finite rho := by
  obtain ⟨a, -, ha, -, -⟩ := Exact.sub_eq_finite.1 h
  obtain ⟨b, -, hb, -, -⟩ := Exact.mul_eq_finite.1 ha
  obtain ⟨-, rho, -, hrho, -⟩ := Exact.mul_eq_finite.1 hb
  exact ⟨rho, hrho⟩

variable [IsStrictOrderedRing F]

/-- The penalty times a shifted violation is the multiplier after its move. -/
theorem mul_shift {penalty : F} (hp : 0 < penalty) (violation y : F) :
    finite penalty * Scalar.max (finite violation + finite y / finite penalty) 0 =
      Scalar.max (finite y + finite penalty * finite violation) 0 := by
  have hne : penalty ≠ 0 := ne_of_gt hp
  rw [Exact.finite_div y hne, Exact.zero_def, Exact.finite_add, Exact.max_finite, Exact.finite_mul,
    Exact.finite_mul, Exact.finite_add, Exact.max_finite, mul_max_of_nonneg _ _ (le_of_lt hp),
    mul_zero, mul_add, mul_div_cancel₀ _ hne, add_comm]

/-- The same for a side that may be infinite, where there is neither a shift nor a move. -/
theorem mul_sideShift {penalty : F} (hp : 0 < penalty) {bound lam violation : Exact F}
    (h : SideMultiplier bound lam)
    (hv : Scalar.isFinite bound = true → ∃ v, violation = finite v) :
    (finite penalty * if Scalar.isFinite bound then
        Scalar.max (violation + lam / finite penalty) 0 else 0) =
      if Scalar.isFinite bound then Scalar.max (lam + finite penalty * violation) 0 else lam := by
  obtain ⟨y, rfl, -, hzero⟩ := h
  split
  · next hfin =>
    obtain ⟨v, rfl⟩ := hv hfin
    exact mul_shift hp v y
  · next hinf => rw [hzero (Bool.eq_false_iff.2 hinf), Exact.zero_def, Exact.finite_mul, mul_zero]

theorem mul_upperShift {term : Term (Exact F)} {penalty : F} (hp : 0 < penalty)
    (h : SideMultiplier term.bounds.upper term.multiplier.upper) (c : F) :
    finite penalty * term.upperShift (finite penalty) (finite c) =
      (updateMultiplier (finite penalty) term (finite c)).upper := by
  refine mul_sideShift hp h fun hfin => ?_
  obtain ⟨u, hu⟩ := Exact.isFinite_iff.1 hfin
  exact ⟨c - u, by rw [hu, Exact.finite_sub]⟩

theorem mul_lowerShift {term : Term (Exact F)} {penalty : F} (hp : 0 < penalty)
    (h : SideMultiplier term.bounds.lower term.multiplier.lower) (c : F) :
    finite penalty * term.lowerShift (finite penalty) (finite c) =
      (updateMultiplier (finite penalty) term (finite c)).lower := by
  refine mul_sideShift hp h fun hfin => ?_
  obtain ⟨l, hl⟩ := Exact.isFinite_iff.1 hfin
  exact ⟨l - c, by rw [hl, Exact.finite_sub]⟩

/-- The gradient that the descent has made small has the multipliers of the update as weights. -/
theorem Term.weight_eq_net {term : Term (Exact F)} {penalty : F} (hp : 0 < penalty)
    (h : term.multiplier.Admissible term.bounds) (c : F) :
    term.weight (finite penalty) (finite c) =
      (updateMultiplier (finite penalty) term (finite c)).net := by
  have hu := mul_upperShift hp h.upper c
  have hl := mul_lowerShift hp h.lower c
  obtain ⟨y, hy, -⟩ := (admissible_updateMultiplier h (finite penalty) (finite c)).upper
  obtain ⟨z, hz, -⟩ := (admissible_updateMultiplier h (finite penalty) (finite c)).lower
  obtain ⟨_, a, ⟨⟩, ha, hya⟩ := Exact.mul_eq_finite.1 (hu.trans hy)
  obtain ⟨_, b, ⟨⟩, hb, hzb⟩ := Exact.mul_eq_finite.1 (hl.trans hz)
  rw [Term.weight, Multiplier.net, hy, hz, ha, hb, Exact.finite_sub, Exact.finite_sub,
    Exact.finite_mul, hya, hzb, mul_sub]

/-! ## The penalty -/

theorem lt_min_mul {penalty growth cap : Exact F} (hp : 0 < penalty) (hg : 1 < growth)
    (hc : 0 < cap) : 0 < Scalar.min (penalty * growth) cap := by
  rcases Exact.mul_finite_or_undefined penalty growth with ⟨z, hz⟩ | hz
  · obtain ⟨x, y, rfl, rfl, rfl⟩ := Exact.mul_eq_finite.1 hz
    rw [Exact.finite_mul]
    exact Ordered.lt_min (mul_pos (Exact.finite_lt _ _ |>.1 hp)
      (zero_lt_one.trans (Exact.finite_lt _ _ |>.1 hg))) hc
  · rw [hz, Exact.min_undefined_left (Ordered.defined_of_lt hc).2]
    exact hc

theorem nextPenalty_pos {s : Settings (Exact F)} (hs : s.Positive) {penalty : Exact F}
    (hp : 0 < penalty) (before now : Measures (Exact F)) :
    0 < nextPenalty s penalty before now := by
  rw [nextPenalty]
  split
  · exact lt_min_mul hp hs.penaltyGrowth hs.maxPenalty
  · exact hp

end Optima.Lagrangian
