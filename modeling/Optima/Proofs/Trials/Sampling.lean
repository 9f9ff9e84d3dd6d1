import Mathlib.Data.List.Forall2
import Optima.Proofs.Scalar.Double
import Optima.Trials.Guess

/-!
First guesses, which are drawn.

An infinite bound is replaced before a point between the bounds is drawn. So the bounds that are drawn
between may be the wrong way round, and what is drawn may overflow.

* `Guess.Open`: bounds that leave room for a number.
* `Guess.Usable`: a number within two bounds; it is the bound if these are equal.
* `usable_between`: whatever is drawn between such bounds can be used.
* `usable_sample`: so can every entry of a first guess.
-/

namespace Optima.Guess

variable {α : Type} [Scalar α]

/-- The bounds are in order, and not both at the same infinity. -/
structure Open (lower upper : α) : Prop where
  le : lower ≤ upper
  lower_lt : lower < Scalar.infinity
  lt_upper : -Scalar.infinity < upper

/-- A finite number within the bounds. Where the bounds are equal it is the bound, to the bit. -/
structure Usable (lower upper v : α) : Prop where
  finite : Scalar.isFinite v = true
  lower_le : lower ≤ v
  le_upper : v ≤ upper
  pinned : (lower == upper) = true → v = upper

variable {lower upper v : α}

/-- A finite number is cut back to a finite number: neither bound is the infinity that it would be
raised or lowered to. -/
theorem Open.isFinite_cut [Ordered α] (h : Open lower upper) (hv : Scalar.isFinite v = true) :
    Scalar.isFinite (Scalar.min (Scalar.max v lower) upper) = true := by
  simp only [Scalar.isFinite, Bool.and_eq_true, decide_eq_true_eq] at hv ⊢
  obtain ⟨hlow, hhigh⟩ := hv
  have hdefined : Scalar.isNaN v = false := (Ordered.defined_of_lt hhigh).1
  have hraised : -Scalar.infinity < Scalar.max v lower :=
    Ordered.lt_of_lt_of_le hlow (Ordered.left_le_max hdefined)
  have hmax : Scalar.max v lower < Scalar.infinity := Ordered.max_lt hhigh h.lower_lt
  exact ⟨Ordered.lt_min hraised h.lt_upper,
    Ordered.lt_of_le_of_lt (Ordered.min_le_left (Ordered.defined_of_lt hmax).1) hmax⟩

theorem Open.usable_cut [Ordered α] (h : Open lower upper) (hv : Scalar.isFinite v = true) :
    Usable lower upper (Scalar.min (Scalar.max v lower) upper) := by
  obtain ⟨hlower, hupper⟩ := Ordered.defined_of_le h.le
  have hraised : lower ≤ Scalar.max v lower := Ordered.right_le_max hlower
  refine ⟨h.isFinite_cut hv, Ordered.le_min hraised h.le, Ordered.min_le_right hupper, ?_⟩
  intro heq
  have hback : upper ≤ lower := (Ordered.beq_iff.1 heq).2
  exact Ordered.min_eq_right (Ordered.le_trans hback hraised)

variable [Arithmetic α]

/-- Zero is put in for what overflows or is undefined. -/
theorem isFinite_repaired (v : α) :
    Scalar.isFinite (if Scalar.isFinite v then v else 0) = true := by
  split
  · assumption
  · exact Arithmetic.isFinite_zero

theorem usable_between (h : Open lower upper) (draw : α) :
    Usable lower upper (between lower upper draw) :=
  h.usable_cut (isFinite_repaired _)

/-- A first guess has one entry for each pair of bounds, and each entry can be used, whatever has
been drawn. -/
theorem usable_sample (box : Box α) (draws : Nat → α)
    (h : ∀ bounds ∈ box.lower.zip box.upper, Open bounds.1 bounds.2) :
    List.Forall₂ (fun bounds v => Usable bounds.1 bounds.2 v) (box.lower.zip box.upper)
      (sample box draws) := by
  rw [List.forall₂_iff_get]
  refine ⟨by simp [sample], fun i hi hi' => ?_⟩
  have hbounds := h _ (List.getElem_mem hi)
  simpa [sample] using usable_between hbounds (draws i)

/-- Bounds beyond what stands for an infinite one, on either side, and a pinned coordinate. -/
def beyond : Box Float := ⟨[1e11, -Scalar.infinity, 2], [Scalar.infinity, -1e11, 2]⟩

/-- Halfway between the bounds that are drawn between, which are the wrong way round twice. -/
theorem usable_sample_beyond :
    (∀ bounds ∈ beyond.lower.zip beyond.upper, Open bounds.1 bounds.2) ∧
      List.Forall₂ (fun bounds v => Usable bounds.1 bounds.2 v) (beyond.lower.zip beyond.upper)
        (sample beyond fun _ => 0.5) := by
  have hopen : ∀ bounds ∈ beyond.lower.zip beyond.upper, Open bounds.1 bounds.2 := by
    change ∀ bounds ∈ [((1e11 : Float), Scalar.infinity), (-Scalar.infinity, -1e11), (2, 2)], _
    simp only [List.forall_mem_cons, List.not_mem_nil, false_implies, implies_true, and_true]
    refine ⟨?_, ?_, ?_⟩ <;> exact ⟨by decide +kernel, by decide +kernel, by decide +kernel⟩
  exact ⟨hopen, usable_sample beyond (fun _ => 0.5) hopen⟩

example : between (1e11 : Float) Scalar.infinity 0.5 = 1e11 := by decide +kernel

end Optima.Guess
