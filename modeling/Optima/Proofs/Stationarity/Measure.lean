import Mathlib.Algebra.Order.Group.MinMax
import Mathlib.Order.Bounds.Basic
import Optima.Proofs.Lagrangian.Optimality
import Optima.Proofs.Stationarity

/-!
What the stationarity of a point in a box measures, in exact arithmetic.

* `Box.fall`, `Box.rise`: how far a coordinate can go against its entry of the gradient, down to its
  lower bound and up to its upper one.
* `Box.way_eq`: the way that a coordinate goes is one of these; `Box.way_eq_zero_iff`: it goes nowhere
  if it is not pushed, or pushed against the bound that it is at.
* `Box.exists_largest_way`: the stationarity is the way of some coordinate, and none is longer.
* `Box.stationarity_measures`: so it is the largest of what the coordinates can fall and rise, and it
  is zero exactly if every coordinate is stopped.
-/

namespace Optima

open Exact (finite)

variable {F : Type} [Field F] [LinearOrder F]

/-! ## One coordinate -/

namespace Box

/-- How far a coordinate at `x` can fall to its lower bound: as far as its entry of the gradient is
positive, but not beyond the bound, if there is one. -/
def fall (l : Exact F) (x g : F) : F :=
  match l with
  | finite l => min (max g 0) (x - l)
  | .infinite _ | .undefined => max g 0

/-- How far it can rise to its upper bound: as far as its entry of the gradient is negative, but not
beyond the bound, if there is one. -/
def rise (u : Exact F) (x g : F) : F :=
  match u with
  | finite u => min (max (-g) 0) (u - x)
  | .infinite _ | .undefined => max (-g) 0

section

variable [Elementary F] [IsStrictOrderedRing F] {l u : Exact F} {x g : F}

theorem fall_nonneg (h : l ≤ finite x) : 0 ≤ fall l x g := by
  cases l with
  | finite l => exact le_min (le_max_right g 0) (sub_nonneg.2 h)
  | infinite n => exact le_max_right g 0
  | undefined => exact le_max_right g 0

theorem rise_nonneg (h : finite x ≤ u) : 0 ≤ rise u x g := by
  cases u with
  | finite u => exact le_min (le_max_right (-g) 0) (sub_nonneg.2 h)
  | infinite n => exact le_max_right (-g) 0
  | undefined => exact le_max_right (-g) 0

/-- A coordinate does not fall if nothing pushes it down, or if it is at its lower bound. -/
theorem fall_eq_zero_iff (h : l ≤ finite x) : fall l x g = 0 ↔ g ≤ 0 ∨ l = finite x := by
  rw [le_antisymm_iff, and_iff_left (fall_nonneg h)]
  cases l with
  | finite l =>
    have hle : l ≤ x := h
    rw [fall, min_le_iff, sub_nonpos, hle.ge_iff_eq, Exact.finite.injEq]
    simp
  | infinite n => simp [fall]
  | undefined => exact absurd h (Exact.not_undefined_le _)

theorem rise_eq_zero_iff (h : finite x ≤ u) : rise u x g = 0 ↔ 0 ≤ g ∨ u = finite x := by
  rw [le_antisymm_iff, and_iff_left (rise_nonneg h)]
  cases u with
  | finite u =>
    have hle : x ≤ u := h
    rw [rise, min_le_iff, sub_nonpos, hle.ge_iff_eq, Exact.finite.injEq, eq_comm]
    simp
  | infinite n => simp [rise]
  | undefined => exact absurd h (Exact.not_le_undefined _)

omit [IsStrictOrderedRing F] in
theorem unit_step : finite x - 1 * finite g = finite (x - g) := by
  rw [Exact.one_def, Exact.finite_mul, one_mul, Exact.finite_sub]

theorem way_of_nonneg (hl : l ≤ finite x) (hu : finite x ≤ u) (hg : 0 ≤ g) :
    way l u (finite x) (finite g) = finite (fall l x g) := by
  -- A step down is cut by the lower bound alone, since it ends below `x`.
  have hmax : Scalar.max (finite (x - g)) l = finite (x - fall l x g) := by
    cases l with
    | finite l =>
      rw [Exact.max_finite, fall, max_eq_left hg, ← max_sub_sub_left, sub_sub_cancel]
    | infinite n =>
      obtain rfl : n = true := hl
      rw [Exact.max_eq_finite rfl, fall, max_eq_left hg]
    | undefined => exact absurd hl (Exact.not_undefined_le _)
  have hle : finite (x - fall l x g) ≤ u :=
    Ordered.le_trans (sub_le_self x (fall_nonneg hl)) hu
  rw [way, unit_step, hmax, Exact.min_eq_finite hle, Exact.finite_sub, sub_sub_cancel_left]
  change finite |-fall l x g| = _
  rw [abs_neg, abs_of_nonneg (fall_nonneg hl)]

theorem way_of_nonpos (hl : l ≤ finite x) (hu : finite x ≤ u) (hg : g ≤ 0) :
    way l u (finite x) (finite g) = finite (rise u x g) := by
  have hle : l ≤ finite (x - g) := Ordered.le_trans hl ((le_sub_self_iff x).2 hg)
  have hmin : Scalar.min (finite (x - g)) u = finite (x + rise u x g) := by
    have hpush : max (-g) 0 = -g := max_eq_left (neg_nonneg.2 hg)
    cases u with
    | finite u =>
      rw [Exact.min_finite, rise, hpush, ← min_add_add_left, ← sub_eq_add_neg, add_sub_cancel]
    | infinite n =>
      obtain rfl : n = false := hu
      rw [Exact.min_eq_finite rfl, rise, hpush, sub_eq_add_neg]
    | undefined => exact absurd hu (Exact.not_le_undefined _)
  rw [way, unit_step, Exact.max_eq_finite hle, hmin, Exact.finite_sub, add_sub_cancel_left]
  change finite |rise u x g| = _
  rw [abs_of_nonneg (rise_nonneg hu)]

theorem way_eq (hl : l ≤ finite x) (hu : finite x ≤ u) :
    way l u (finite x) (finite g) = finite (max (fall l x g) (rise u x g)) := by
  rcases le_total 0 g with hg | hg
  · rw [way_of_nonneg hl hu hg, (rise_eq_zero_iff hu).2 (.inl hg), max_eq_left (fall_nonneg hl)]
  · rw [way_of_nonpos hl hu hg, (fall_eq_zero_iff hl).2 (.inl hg), max_eq_right (rise_nonneg hu)]

/-- A coordinate goes nowhere if it is not pushed, or pushed against the bound that it is at. -/
theorem way_eq_zero_iff (hl : l ≤ finite x) (hu : finite x ≤ u) :
    max (fall l x g) (rise u x g) = 0 ↔
      g = 0 ∨ 0 < g ∧ l = finite x ∨ g < 0 ∧ u = finite x := by
  have hfall : fall l x g = 0 ↔ g ≤ 0 ∨ l = finite x := fall_eq_zero_iff hl
  have hrise : rise u x g = 0 ↔ 0 ≤ g ∨ u = finite x := rise_eq_zero_iff hu
  rcases lt_trichotomy g 0 with hg | rfl | hg
  · rw [hfall.2 (.inl hg.le), max_eq_right (rise_nonneg hu), hrise]
    simp [hg, hg.ne, hg.not_gt, hg.not_ge]
  · rw [hfall.2 (.inl le_rfl), hrise.2 (.inl le_rfl), max_self]
    simp
  · rw [hrise.2 (.inl hg.le), max_eq_left (fall_nonneg hl), hfall]
    simp [hg, hg.ne', hg.not_gt, hg.not_ge]

end

/-! ## All coordinates -/

/-- The ways that the coordinates go by a unit step against the gradient. -/
def ways {α : Type} [Scalar α] (box : Box α) (point gradient : List α) : List α :=
  (displacement (box.move point gradient 1) point).map Scalar.abs

theorem stationarity_eq_ways {α : Type} [Scalar α] (box : Box α) (point gradient : List α) :
    box.stationarity point gradient = (box.ways point gradient).foldl Scalar.max 0 := rfl

/-- Coordinate `i` of the point is `x`, its bounds are `l` and `u`, and its entry of the gradient is
`g`. -/
structure At (box : Box (Exact F)) (xs gs : List F) (i : ℕ) (l u : Exact F) (x g : F) : Prop where
  lower : box.lower[i]? = some l
  upper : box.upper[i]? = some u
  point : xs[i]? = some x
  gradient : gs[i]? = some g

variable [Elementary F] {box : Box (Exact F)} {xs gs : List F}

theorem exists_at (hbox : box.Valid xs.length) (hgs : gs.length = xs.length) {i : ℕ}
    (hi : i < xs.length) : ∃ l u x g, box.At xs gs i l u x g :=
  ⟨_, _, _, _, List.getElem?_eq_getElem (hbox.length_lower ▸ hi),
    List.getElem?_eq_getElem (hbox.length_upper ▸ hi), List.getElem?_eq_getElem hi,
    List.getElem?_eq_getElem (hgs ▸ hi)⟩

section

variable {i : ℕ} {l u : Exact F} {x g : F}

omit [Field F] [LinearOrder F] [Elementary F] in
theorem getElem?_map_finite (h : xs[i]? = some x) : (xs.map finite)[i]? = some (finite x) := by
  rw [List.getElem?_map, h, Option.map_some]

theorem At.between (h : box.At xs gs i l u x g) (hin : box.Contains (xs.map finite)) :
    l ≤ finite x ∧ finite x ≤ u :=
  hin i l u (finite x) h.lower h.upper (getElem?_map_finite h.point)

variable [IsStrictOrderedRing F]

theorem At.way_nonneg (h : box.At xs gs i l u x g) (hin : box.Contains (xs.map finite)) :
    0 ≤ max (fall l x g) (rise u x g) :=
  (fall_nonneg (h.between hin).1).trans (le_max_left _ _)

theorem At.getElem?_ways (h : box.At xs gs i l u x g) (hin : box.Contains (xs.map finite)) :
    (box.ways (xs.map finite) (gs.map finite))[i]? =
      some (finite (max (fall l x g) (rise u x g))) := by
  obtain ⟨hl, hu⟩ := h.between hin
  rw [ways, getElem?_displacement_move h.lower h.upper (getElem?_map_finite h.point)
    (getElem?_map_finite h.gradient), way_eq hl hu]

end

variable [IsStrictOrderedRing F]

/-- The ways are numbers, and so is the largest of them. -/
theorem exists_ways (hbox : box.Valid xs.length) (hin : box.Contains (xs.map finite))
    (hgs : gs.length = xs.length) :
    ∃ ws : List F, ws.length = xs.length ∧
      (∀ i l u x g, box.At xs gs i l u x g → ws[i]? = some (max (fall l x g) (rise u x g))) ∧
      box.stationarity (xs.map finite) (gs.map finite) = finite (ws.foldl max 0) := by
  have hlength : (box.ways (xs.map finite) (gs.map finite)).length = xs.length := by
    simp [ways, displacement, length_move, hgs]
  have hfinite : ∀ a ∈ box.ways (xs.map finite) (gs.map finite), Scalar.isFinite a = true := by
    intro a ha
    obtain ⟨i, hi⟩ := List.mem_iff_getElem?.1 ha
    have hlt : i < xs.length := hlength ▸ (List.getElem?_eq_some_iff.1 hi).1
    obtain ⟨l, u, x, g, hat⟩ := exists_at hbox hgs hlt
    rw [hat.getElem?_ways hin] at hi
    cases hi
    exact Exact.isFinite_finite _
  obtain ⟨ws, hws⟩ := Exact.exists_map_finite hfinite
  refine ⟨ws, ?_, ?_, ?_⟩
  · rw [← hlength, hws, List.length_map]
  · intro i l u x g hat
    have hi := hat.getElem?_ways hin
    rw [hws, List.getElem?_map, Option.map_eq_some_iff] at hi
    obtain ⟨w, hw, ⟨⟩⟩ := hi
    exact hw
  · rw [stationarity_eq_ways, hws, Exact.zero_def, Exact.foldl_max_map_finite]

/-- The largest way is that of some coordinate, unless there is none. -/
theorem exists_largest_way (hbox : box.Valid xs.length) (hin : box.Contains (xs.map finite))
    (hgs : gs.length = xs.length) :
    ∃ m : F, box.stationarity (xs.map finite) (gs.map finite) = finite m ∧
      (∀ i l u x g, box.At xs gs i l u x g → max (fall l x g) (rise u x g) ≤ m) ∧
      (xs = [] ∧ m = 0 ∨
        ∃ i l u x g, box.At xs gs i l u x g ∧ m = max (fall l x g) (rise u x g)) := by
  obtain ⟨ws, hlength, hws, hm⟩ := exists_ways hbox hin hgs
  have hlargest : (0 :: ws).max? = some (ws.foldl max 0) := List.max?_cons'
  generalize ws.foldl max 0 = m at hm hlargest
  obtain ⟨hmem, hle⟩ := List.max?_eq_some_iff.1 hlargest
  have hbound (i l u x g) (hat : box.At xs gs i l u x g) :
      max (fall l x g) (rise u x g) ≤ m :=
    hle _ (List.mem_cons_of_mem 0 (List.mem_of_getElem? (hws i l u x g hat)))
  refine ⟨m, hm, hbound, ?_⟩
  -- The zero that the search begins with is no way, but if it is the largest, all ways are zero.
  rcases List.mem_cons.1 hmem with rfl | hmw
  · rcases eq_or_ne xs [] with hnil | hne
    · exact .inl ⟨hnil, rfl⟩
    · obtain ⟨l, u, x, g, hat⟩ := exists_at hbox hgs (List.length_pos_iff.2 hne)
      exact .inr ⟨0, l, u, x, g, hat, le_antisymm (hat.way_nonneg hin) (hbound 0 l u x g hat)⟩
  · obtain ⟨i, hi⟩ := List.mem_iff_getElem?.1 hmw
    have hlt : i < xs.length := hlength ▸ (List.getElem?_eq_some_iff.1 hi).1
    obtain ⟨l, u, x, g, hat⟩ := exists_at hbox hgs hlt
    exact .inr ⟨i, l, u, x, g, hat, Option.some.inj (hi.symm.trans (hws i l u x g hat))⟩

/-! ## The measure -/

/-- How far the coordinates can fall, and how far they can rise. -/
def distances (box : Box (Exact F)) (xs gs : List F) : Set F :=
  {z | ∃ i l u x g, box.At xs gs i l u x g ∧ (z = fall l x g ∨ z = rise u x g)}

/-- For a point in a box the stationarity is the largest distance that a coordinate can fall or rise
against the gradient, and zero if there is no coordinate. It is zero exactly if each coordinate is
stopped: its entry of the gradient is zero, or it is positive and the coordinate is at its lower
bound, or it is negative and the coordinate is at its upper bound. -/
theorem stationarity_measures (hbox : box.Valid xs.length) (hin : box.Contains (xs.map finite))
    (hgs : gs.length = xs.length) :
    ∃ m : F, box.stationarity (xs.map finite) (gs.map finite) = finite m ∧
      (xs = [] → m = 0) ∧ (xs ≠ [] → IsGreatest (box.distances xs gs) m) ∧
      (m = 0 ↔ ∀ i l u x g, box.At xs gs i l u x g →
        g = 0 ∨ 0 < g ∧ l = finite x ∨ g < 0 ∧ u = finite x) := by
  obtain ⟨m, hm, hbound, hattained⟩ := exists_largest_way hbox hin hgs
  refine ⟨m, hm, ?_, ?_, ?_, ?_⟩
  · intro hnil
    rcases hattained with ⟨-, h⟩ | ⟨i, l, u, x, g, hat, -⟩
    · exact h
    · rw [hnil] at hat
      cases hat.point
  · intro hne
    constructor
    · rcases hattained with ⟨hnil, -⟩ | ⟨i, l, u, x, g, hat, rfl⟩
      · exact absurd hnil hne
      · exact ⟨i, l, u, x, g, hat, max_choice _ _⟩
    · rintro z ⟨i, l, u, x, g, hat, rfl | rfl⟩
      · exact (le_max_left _ _).trans (hbound i l u x g hat)
      · exact (le_max_right _ _).trans (hbound i l u x g hat)
  · intro hzero i l u x g hat
    obtain ⟨hl, hu⟩ := hat.between hin
    have hway : max (fall l x g) (rise u x g) = 0 :=
      le_antisymm (hzero ▸ hbound i l u x g hat) (hat.way_nonneg hin)
    exact (way_eq_zero_iff hl hu).1 hway
  · intro hstopped
    rcases hattained with ⟨-, h⟩ | ⟨i, l, u, x, g, hat, rfl⟩
    · exact h
    · obtain ⟨hl, hu⟩ := hat.between hin
      exact (way_eq_zero_iff hl hu).2 (hstopped i l u x g hat)

/-- The first coordinate is pushed against its bound, the second one is stopped by its bound after a
half, and the last one goes as far as it is pushed. -/
theorem stationarity_measures_corner :
    let box : Box (Exact ℚ) := ⟨[finite 0, .infinite true, finite 0],
      [.infinite false, finite 1, finite 2]⟩
    box.stationarity ([0, 1 / 2, 1].map finite) ([3, -2, 1 / 4].map finite) = finite (1 / 2) ∧
      IsGreatest (box.distances [0, 1 / 2, 1] [3, -2, 1 / 4]) (1 / 2) := by
  intro box
  have hbox : box.Valid 3 := ⟨rfl, rfl, by decide +kernel⟩
  have hstay : box.project ([0, 1 / 2, 1].map finite) = [0, 1 / 2, 1].map finite := by
    decide +kernel
  have hin : box.Contains ([0, 1 / 2, 1].map finite) := hstay ▸ contains_project hbox _
  have hvalue : box.stationarity ([0, 1 / 2, 1].map finite) ([3, -2, 1 / 4].map finite) =
      finite (1 / 2) := by decide +kernel
  have hgs : ([3, -2, 1 / 4] : List ℚ).length = 3 := rfl
  obtain ⟨m, hm, -, hgreatest, -⟩ := stationarity_measures hbox hin hgs
  rw [hvalue] at hm
  cases hm
  exact ⟨hvalue, hgreatest (List.cons_ne_nil _ _)⟩

end Box

end Optima
