import Optima.Invocation
import Optima.Proofs.Scalar.Order

/-!
Points in boxes.

* `Box.Valid`: bounds on a number of coordinates that are defined and not crossed.
* `Box.contains_project`: what is cut back to a valid box lies in it.
* `Box.defined_of_contains`: what lies in a valid box has defined coordinates.
* `Invocation.fault?_eq_none_iff`: an invocation without a fault has valid boxes of the right size.
-/

namespace Optima

variable {α : Type} [Scalar α]

namespace Box

/-- The box bounds `n` coordinates; all bounds are defined and no pair is crossed. -/
structure Valid (box : Box α) (n : Nat) : Prop where
  length_lower : box.lower.length = n
  length_upper : box.upper.length = n
  ordered : ∀ p ∈ box.lower.zip box.upper,
    Scalar.isNaN p.1 = false ∧ Scalar.isNaN p.2 = false ∧ p.1 ≤ p.2

/-- Every coordinate of the point lies between its bounds. -/
def Contains (box : Box α) (point : List α) : Prop :=
  ∀ (i : Nat) (l u x : α),
    box.lower[i]? = some l → box.upper[i]? = some u → point[i]? = some x → l ≤ x ∧ x ≤ u

theorem Valid.at {box : Box α} {n i : Nat} {l u : α} (h : box.Valid n)
    (hl : box.lower[i]? = some l) (hu : box.upper[i]? = some u) :
    Scalar.isNaN l = false ∧ Scalar.isNaN u = false ∧ l ≤ u := by
  have hzip : (box.lower.zip box.upper)[i]? = some (l, u) := by
    simp [List.getElem?_zip_eq_some, hl, hu]
  exact h.ordered (l, u) (List.mem_of_getElem? hzip)

theorem getElem?_projectBetween {ls us xs : List α} {i : Nat} {l u x : α} (hl : ls[i]? = some l)
    (hu : us[i]? = some u) (hx : xs[i]? = some x) :
    (projectBetween ls us xs)[i]? = some (Scalar.min (Scalar.max x l) u) := by
  fun_induction projectBetween ls us xs generalizing i with
  | case1 l₀ ls u₀ us x₀ xs ih =>
    cases i with
    | zero =>
      cases hl
      cases hu
      cases hx
      rfl
    | succ i => exact ih hl hu hx
  | case2 ls us xs hne =>
    cases ls with
    | nil => cases hl
    | cons l₀ ls =>
      cases us with
      | nil => cases hu
      | cons u₀ us =>
        cases xs with
        | nil => cases hx
        | cons x₀ xs => exact absurd rfl (hne l₀ ls u₀ us x₀ xs rfl rfl)

theorem getElem?_project {box : Box α} {y : List α} {i : Nat} {l u x : α}
    (hl : box.lower[i]? = some l) (hu : box.upper[i]? = some u) (hx : y[i]? = some x) :
    (box.project y)[i]? = some (Scalar.min (Scalar.max x l) u) :=
  getElem?_projectBetween hl hu hx

variable [Ordered α]

theorem contains_project {box : Box α} {n : Nat} (h : box.Valid n) (y : List α) :
    box.Contains (box.project y) := by
  intro i l u x hl hu hx
  obtain ⟨hnl, hnu, hlu⟩ := h.at hl hu
  cases hy : y[i]? with
  | none =>
    rw [List.getElem?_eq_none_iff] at hy
    rw [List.getElem?_eq_none (by rw [length_project]; exact hy)] at hx
    cases hx
  | some v =>
    rw [getElem?_project hl hu hy] at hx
    cases hx
    exact ⟨Ordered.le_min (Ordered.right_le_max hnl) hlu, Ordered.min_le_right hnu⟩

theorem defined_of_contains {box : Box α} {n : Nat} (hv : box.Valid n) {point : List α}
    (hp : point.length = n) (h : box.Contains point) : ∀ x ∈ point, Scalar.isNaN x = false := by
  intro x hx
  obtain ⟨i, hi⟩ := List.mem_iff_getElem?.1 hx
  have hlt : i < n := hp ▸ (List.getElem?_eq_some_iff.1 hi).1
  obtain ⟨hle, -⟩ := h i _ _ x (List.getElem?_eq_getElem (hv.length_lower ▸ hlt))
    (List.getElem?_eq_getElem (hv.length_upper ▸ hlt)) hi
  exact (Ordered.defined_of_le hle).2

end Box

namespace Invocation

variable [Ordered α]

theorem pairFault?_eq_none_iff {on : Bounded} {index : Nat} {pairs : List (α × α)} :
    pairFault? on index pairs = none ↔
      ∀ p ∈ pairs, Scalar.isNaN p.1 = false ∧ Scalar.isNaN p.2 = false ∧ p.1 ≤ p.2 := by
  induction pairs generalizing index with
  | nil => simp [pairFault?]
  | cons p pairs ih =>
    obtain ⟨l, u⟩ := p
    rw [pairFault?, List.forall_mem_cons]
    cases hl : Scalar.isNaN l with
    | true => simp
    | false =>
      cases hu : Scalar.isNaN u with
      | true => simp
      | false =>
        by_cases hlt : u < l
        · simp [hlt, (Ordered.lt_iff.1 hlt).2]
        · simp [hlt, (Ordered.not_lt hu hl).1 hlt, ih]

omit [Scalar α] [Ordered α] in
theorem lengthFault?_eq_none_iff {argument : Argument} {values : List α} {n : Nat} :
    lengthFault? argument values n = none ↔ values.length = n := by
  unfold lengthFault?
  split <;> simp_all

omit [Ordered α] in
/-- In any arithmetic the lists of an invocation without a fault have the right lengths. -/
theorem lengths_of_fault? {inv : Invocation α} {n m : Nat} (h : inv.fault? n m = none) :
    inv.guess.length = n ∧ inv.constraints.lower.length = m ∧
      inv.constraints.upper.length = m := by
  simp only [fault?, Option.orElse_eq_orElse, Option.orElse_eq_or, Option.or_eq_none_iff,
    lengthFault?_eq_none_iff] at h
  obtain ⟨hg, -, -, hl, hu, -, -⟩ := h
  exact ⟨hg, hl, hu⟩

theorem fault?_eq_none_iff {inv : Invocation α} {n m : Nat} :
    inv.fault? n m = none ↔
      inv.guess.length = n ∧ inv.decisions.Valid n ∧ inv.constraints.Valid m := by
  simp only [fault?, Option.orElse_eq_orElse, Option.orElse_eq_or, Option.or_eq_none_iff,
    boundsFault?, lengthFault?_eq_none_iff, pairFault?_eq_none_iff]
  constructor
  · rintro ⟨hg, hl, hu, hl', hu', hd, hc⟩
    exact ⟨hg, ⟨hl, hu, hd⟩, ⟨hl', hu', hc⟩⟩
  · rintro ⟨hg, ⟨hl, hu, hd⟩, ⟨hl', hu', hc⟩⟩
    exact ⟨hg, hl, hu, hl', hu', hd, hc⟩

end Invocation

end Optima
