import Optima.Proofs.Lagrangian.Multipliers

/-!
What measures within a tolerance say of each constraint.

* `le_of_violation_le`: no side of a constraint is violated by more than the violation.
* `exists_side_of_lt_violation`: some side is violated by more than what the violation exceeds.
* `near_upper_of_complementarity_le`, `near_lower_of_complementarity_le`: a constraint whose
  multiplier exceeds the complementarity is at most that far away from the side it is held by, in
  exact arithmetic.
-/

namespace Optima.Lagrangian

open Exact (finite)

variable {F : Type} [Field F] [LinearOrder F] [Elementary F] {terms : List (Term (Exact F))}
  {g : List (Exact F)} {t : Exact F} {term : Term (Exact F)} {c : F}

namespace Measures

/-! ## Violation -/

section

variable {α : Type} [Scalar α]

/-- Both sides of a constraint as they enter the violation. -/
def sides (pair : Term α × α) : List α :=
  [pair.2 - pair.1.bounds.upper, pair.1.bounds.lower - pair.2]

theorem violation_eq (terms : List (Term α)) (g : List α) (d : α) :
    (ofValues terms g d).violation = ((terms.zip g).flatMap sides).foldl Scalar.max 0 := by
  rw [List.foldl_flatMap]
  rfl

theorem le_of_violation_le [Arithmetic α] {terms : List (Term α)} {g : List α} {d t c : α}
    {term : Term α} (h : (ofValues terms g d).violation ≤ t) (hm : (term, c) ∈ terms.zip g)
    (hc : Scalar.isFinite c = true) (hl : Scalar.isNaN term.bounds.lower = false)
    (hu : Scalar.isNaN term.bounds.upper = false) :
    c - term.bounds.upper ≤ t ∧ term.bounds.lower - c ≤ t := by
  have hn := Arithmetic.isNaN_of_isFinite hc
  rw [violation_eq] at h
  have hall := (Ordered.le_of_foldl_max_le Arithmetic.isNaN_zero h).2
  constructor
  · refine hall _ (List.mem_flatMap.2 ⟨_, hm, ?_⟩) (Arithmetic.isNaN_sub (.inl hc) hn hu)
    exact List.mem_cons_self
  · refine hall _ (List.mem_flatMap.2 ⟨_, hm, ?_⟩) (Arithmetic.isNaN_sub (.inr hc) hl hn)
    exact List.mem_cons_of_mem _ List.mem_cons_self

theorem exists_side_of_lt_violation {terms : List (Term α)} {g : List α} {d t : α}
    (h : t < (ofValues terms g d).violation) :
    t < 0 ∨ ∃ term c, (term, c) ∈ terms.zip g ∧
      (t < c - term.bounds.upper ∨ t < term.bounds.lower - c) := by
  rw [violation_eq] at h
  refine (Ordered.exists_lt_of_lt_foldl_max h).imp_right ?_
  rintro ⟨x, hx, hlt⟩
  obtain ⟨⟨term, c⟩, hm, hside⟩ := List.mem_flatMap.1 hx
  refine ⟨term, c, hm, ?_⟩
  rcases List.mem_cons.1 hside with rfl | hside
  · exact .inl hlt
  · obtain rfl := List.mem_singleton.1 hside
    exact .inr hlt

end

/-! ## Complementarity -/

/-- The finite sides of a constraint as they enter the complementarity. -/
def finiteSides (pair : Term (Exact F) × Exact F) : List (Exact F) :=
  (if Scalar.isFinite pair.1.bounds.upper then [upperComplementarity pair.1 pair.2] else []) ++
    if Scalar.isFinite pair.1.bounds.lower then [lowerComplementarity pair.1 pair.2] else []

theorem foldl_finiteSides (v : Exact F) (pair : Term (Exact F) × Exact F) :
    (finiteSides pair).foldl Scalar.max v = addComplementarity v pair.1 pair.2 := by
  unfold finiteSides addComplementarity
  split <;> split <;> rfl

theorem complementarity_eq (terms : List (Term (Exact F))) (g : List (Exact F)) (d : Exact F) :
    (ofValues terms g d).complementarity =
      ((terms.zip g).flatMap finiteSides).foldl Scalar.max 0 := by
  rw [List.foldl_flatMap]
  simp only [foldl_finiteSides]
  rfl

theorem isNaN_complementarity {bound lam : Exact F} (hs : SideMultiplier bound lam)
    (slack : Exact F) : Scalar.isNaN (Scalar.min lam (Scalar.max slack 0)) = false := by
  obtain ⟨y, rfl, -⟩ := hs
  rcases Scalar.min_eq_or (finite y) (Scalar.max slack 0) with h | h <;> rw [h]
  · exact Exact.isNaN_finite y
  · exact Ordered.isNaN_max (.inr (Exact.isNaN_finite 0))

theorem le_of_mem_finiteSides {pair : Term (Exact F) × Exact F} {d v : Exact F}
    (h : (ofValues terms g d).complementarity ≤ t) (hm : pair ∈ terms.zip g)
    (hv : v ∈ finiteSides pair) (hn : Scalar.isNaN v = false) : v ≤ t := by
  rw [complementarity_eq] at h
  exact (Ordered.le_of_foldl_max_le (Exact.isNaN_finite 0) h).2 v
    (List.mem_flatMap.2 ⟨pair, hm, hv⟩) hn

theorem upper_le_of_complementarity_le {d : Exact F} (h : (ofValues terms g d).complementarity ≤ t)
    (hm : (term, finite c) ∈ terms.zip g) (hmu : term.multiplier.Admissible term.bounds)
    (hfin : Scalar.isFinite term.bounds.upper = true) :
    upperComplementarity term (finite c) ≤ t := by
  refine le_of_mem_finiteSides h hm ?_ (isNaN_complementarity hmu.upper _)
  simp [finiteSides, hfin]

theorem lower_le_of_complementarity_le {d : Exact F} (h : (ofValues terms g d).complementarity ≤ t)
    (hm : (term, finite c) ∈ terms.zip g) (hmu : term.multiplier.Admissible term.bounds)
    (hfin : Scalar.isFinite term.bounds.lower = true) :
    lowerComplementarity term (finite c) ≤ t := by
  refine le_of_mem_finiteSides h hm ?_ (isNaN_complementarity hmu.lower _)
  simp [finiteSides, hfin]

/-- A side that pushes with more than `t` is finite, so its slack counts. -/
theorem slack_le {bound lam slack : Exact F} (hs : SideMultiplier bound lam) (ht : 0 < t)
    (hlam : t < lam) (hn : Scalar.isNaN slack = false)
    (h : Scalar.isFinite bound = true → Scalar.min lam (Scalar.max slack 0) ≤ t) : slack ≤ t := by
  obtain ⟨y, rfl, -, hzero⟩ := hs
  have hfin : Scalar.isFinite bound = true := by
    rw [← Bool.not_eq_false]
    intro hinf
    rw [hzero hinf] at hlam
    exact (Ordered.lt_iff.1 hlam).2 (Ordered.le_of_lt ht)
  have hmax := Ordered.right_le_of_min_le (h hfin) hlam
    (Ordered.isNaN_max (.inr (Exact.isNaN_finite 0)))
  exact Ordered.le_trans (Ordered.left_le_max hn) hmax

variable [IsStrictOrderedRing F]

theorem near_upper_of_complementarity_le {d : Exact F}
    (h : (ofValues terms g d).complementarity ≤ t) (hm : (term, finite c) ∈ terms.zip g)
    (hmu : term.multiplier.Admissible term.bounds) (hu : Scalar.isNaN term.bounds.upper = false)
    (ht : 0 < t) (hlam : t < term.multiplier.net) : term.bounds.upper - finite c ≤ t := by
  refine slack_le hmu.upper ht ?_ (by rwa [Exact.isNaN_sub_finite])
    (upper_le_of_complementarity_le h hm hmu)
  obtain ⟨y, hy, -⟩ := hmu.upper
  obtain ⟨z, hz, hz0, -⟩ := hmu.lower
  rw [Multiplier.net, hy, hz] at hlam
  rw [hy]
  exact Ordered.lt_of_lt_of_le hlam (sub_le_self y hz0)

theorem near_lower_of_complementarity_le {d : Exact F}
    (h : (ofValues terms g d).complementarity ≤ t) (hm : (term, finite c) ∈ terms.zip g)
    (hmu : term.multiplier.Admissible term.bounds) (hl : Scalar.isNaN term.bounds.lower = false)
    (ht : 0 < t) (hlam : term.multiplier.net < -t) : finite c - term.bounds.lower ≤ t := by
  refine slack_le hmu.lower ht ?_ (by rwa [Exact.isNaN_finite_sub])
    (lower_le_of_complementarity_le h hm hmu)
  obtain ⟨y, hy, hy0, -⟩ := hmu.upper
  obtain ⟨z, hz, -⟩ := hmu.lower
  rw [Multiplier.net, hy, hz] at hlam
  have hlt : t < finite (-(y - z)) := Exact.lt_finite_of_lt_neg hlam
  rw [neg_sub] at hlt
  rw [hz]
  exact Ordered.lt_of_lt_of_le hlt (sub_le_self z hy0)

end Measures

end Optima.Lagrangian
