import Optima.Proofs.Box
import Optima.Proofs.Scalar.Exact

/-!
What stationarity says of one coordinate, in exact arithmetic.

* `Box.way`: the way that a coordinate gets by a unit step against the gradient.
* `Box.way_le_of_stationarity`: no coordinate gets further than the stationarity.
* `near_upper_of_way`, `near_lower_of_way`: a coordinate that gets at most `t` although its entry of
  the gradient is larger is at most `t` away from the bound that stops it.
-/

namespace Optima.Box

open Exact (finite)

/-! ## Coordinates -/

/-- How far a coordinate `x` between `l` and `u` gets by a unit step against its entry `g` of the
gradient. -/
def way {α : Type} [Scalar α] (l u x g : α) : α :=
  Scalar.abs (Scalar.min (Scalar.max (x - 1 * g) l) u - x)

theorem getElem?_displacement_move {α : Type} [Scalar α] {box : Box α} {point gradient : List α}
    {i : Nat} {l u x g : α} (hl : box.lower[i]? = some l) (hu : box.upper[i]? = some u)
    (hx : point[i]? = some x) (hg : gradient[i]? = some g) :
    ((displacement (box.move point gradient 1) point).map Scalar.abs)[i]? =
      some (way l u x g) := by
  have hstep : (List.zipWith (fun x d => x - 1 * d) point gradient)[i]? = some (x - 1 * g) := by
    simp [List.getElem?_zipWith, hx, hg]
  have hmove : (box.move point gradient 1)[i]? =
      some (Scalar.min (Scalar.max (x - 1 * g) l) u) := getElem?_project hl hu hstep
  simp [displacement, List.getElem?_zipWith, hmove, hx, way]

theorem way_le_of_stationarity {α : Type} [Scalar α] [Ordered α] {box : Box α}
    {point gradient : List α} {i : Nat} {l u x g t : α} (hl : box.lower[i]? = some l)
    (hu : box.upper[i]? = some u) (hx : point[i]? = some x) (hg : gradient[i]? = some g)
    (hzero : Scalar.isNaN (0 : α) = false) (hway : Scalar.isNaN (way l u x g) = false)
    (h : box.stationarity point gradient ≤ t) : way l u x g ≤ t := by
  have hmem := List.mem_of_getElem? (getElem?_displacement_move hl hu hx hg)
  exact (Ordered.le_of_foldl_max_le hzero h).2 _ hmem hway

/-! ## Bounds that stop a coordinate -/

variable {F : Type} [Field F] [LinearOrder F] [Elementary F] {l u t : Exact F} {x g : F}

theorem isNaN_way (hl : Scalar.isNaN l = false) (hu : Scalar.isNaN u = false) :
    Scalar.isNaN (way l u (finite x) (finite g)) = false := by
  rw [way, Exact.isNaN_abs, Exact.isNaN_sub_finite]
  rcases Scalar.min_eq_or (Scalar.max (finite x - 1 * finite g) l) u with h | h <;> rw [h]
  · exact Ordered.isNaN_max (.inr hl)
  · exact hu

variable [IsStrictOrderedRing F]

/-- If the coordinate wants to rise by more than `t` but cannot, its upper bound is in the way. -/
theorem near_upper_of_way (hu : Scalar.isNaN u = false) (ht : 0 < t)
    (hway : way l u (finite x) (finite g) ≤ t) (hg : t < finite (-g)) : u - finite x ≤ t := by
  cases t with
  | finite z =>
    have hmove : finite (z + x) < Scalar.max (finite x - 1 * finite g) l := by
      refine Ordered.lt_of_lt_of_le ?_ (Ordered.left_le_max (Exact.isNaN_finite _))
      change z + x < x - 1 * g
      rw [one_mul, sub_eq_neg_add]
      exact add_lt_add_left (Exact.finite_lt _ _ |>.1 hg) x
    rw [← Ordered.not_lt (Exact.isNaN_finite z) (by rwa [Exact.isNaN_sub_finite]),
      Exact.lt_sub_finite]
    intro hfar
    have hlt := Exact.lt_abs_of_lt (Exact.lt_sub_finite.2 (Ordered.lt_min hmove hfar))
    exact (Ordered.lt_iff.1 hlt).2 hway
  | infinite n =>
    cases n with
    | false => cases hg
    | true => cases ht
  | undefined => exact absurd hg (Exact.not_undefined_lt _)

/-- If the coordinate wants to fall by more than `t` but cannot, its lower bound is in the way. -/
theorem near_lower_of_way (hl : Scalar.isNaN l = false) (ht : 0 < t)
    (hway : way l u (finite x) (finite g) ≤ t) (hg : finite (-g) < -t) : finite x - l ≤ t := by
  cases t with
  | finite z =>
    rw [← Ordered.not_lt (Exact.isNaN_finite z) (by rwa [Exact.isNaN_finite_sub]),
      Exact.lt_finite_sub]
    intro hfar
    have hmove : Scalar.max (finite x - 1 * finite g) l < finite (x - z) := by
      refine Ordered.max_lt ?_ hfar
      change x - 1 * g < x - z
      rw [one_mul]
      exact sub_lt_sub_left (neg_lt_neg_iff.1 hg) x
    have hmin : Scalar.min (Scalar.max (finite x - 1 * finite g) l) u < finite (-z + x) := by
      rw [neg_add_eq_sub]
      exact Ordered.lt_of_le_of_lt (Ordered.min_le_left (Ordered.isNaN_max (.inr hl))) hmove
    have hlt := Exact.lt_abs_of_lt_neg (Exact.sub_finite_lt.2 hmin)
    exact (Ordered.lt_iff.1 hlt).2 hway
  | infinite n =>
    cases n with
    | false => cases hg
    | true => cases ht
  | undefined => exact absurd hg (Exact.not_lt_undefined _)

end Optima.Box
