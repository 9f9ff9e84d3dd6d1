import Optima.Proofs.Expr.Compiled
import Optima.Proofs.Expr.Folded
import Optima.Proofs.Scalar.Identities

/-!
Folded sums: what they mention, and what they evaluate to.

* `occurrences_sum`: a sum loses no symbol of its terms.
* `agrees_eval_sum`: its value agrees with the sum of the values of the terms, in the same order.
-/

namespace Optima.Expr

variable {α : Type} [Scalar α]

/-! ## What a sum mentions -/

theorem occurrences_add (a b : Expr α) :
    (a + b).occurrences = a.occurrences ++ b.occurrences := by
  rw [add_def]
  rcases ofBinary_cases a .add b with ⟨v, w, rfl, rfl, h⟩ | ⟨v, rfl, -, h⟩ | ⟨w, -, rfl, h⟩ |
    ⟨-, -, h⟩
  · rw [h]
    rfl
  · rw [h, fromLeft?]
    split <;> rfl
  · rw [h, fromRight?]
    split
    · exact (List.append_nil _).symm
    · rfl
  · rw [h]
    rfl

theorem occurrences_foldl_add (es : List (Expr α)) (first : Expr α) :
    (es.foldl (· + ·) first).occurrences = first.occurrences ++ es.flatMap occurrences := by
  induction es generalizing first with
  | nil => exact (List.append_nil _).symm
  | cons e es ih => rw [List.foldl_cons, ih, occurrences_add, List.append_assoc, List.flatMap_cons]

theorem occurrences_sum (es : List (Expr α)) :
    (Expr.sum es).occurrences = es.flatMap occurrences := occurrences_foldl_add es (const 0)

/-! ## What a sum evaluates to -/

open Scalar (Agrees)

variable [Summation α] (env : Symbol → α)

/-- A zero that is dropped makes no difference; every other sum is added as it stands. -/
theorem agrees_eval_add (a b : Expr α) :
    Agrees ((a + b).eval env) (a.eval env + b.eval env) := by
  rw [add_def]
  rcases ofBinary_cases a .add b with ⟨v, w, rfl, rfl, h⟩ | ⟨v, rfl, -, h⟩ | ⟨w, -, rfl, h⟩ |
    ⟨-, -, h⟩
  · rw [h]
    exact agrees_refl _
  · rw [h, fromLeft?]
    split
    · next hv => exact agrees_symm (Summation.agrees_zero_add hv)
    · exact agrees_refl _
  · rw [h, fromRight?]
    split
    · next hw => exact agrees_symm (Summation.agrees_add_zero hw)
    · exact agrees_refl _
  · rw [h]
    exact agrees_refl _

/-- The induction is on the terms that are left. What has been added up so far agrees, so that the
next sums do. -/
theorem agrees_eval_foldl_add (es : List (Expr α)) {first : Expr α} {v : α}
    (h : Agrees (first.eval env) v) :
    Agrees ((es.foldl (· + ·) first).eval env) ((es.map (eval env)).foldl (· + ·) v) := by
  induction es generalizing first v with
  | nil => exact h
  | cons e es ih =>
    exact ih (agrees_trans (agrees_eval_add env first e)
      (Summation.agrees_add h (agrees_refl (e.eval env))))

/-- The folded sum starts at the constant zero and the other one at the negative zero. -/
theorem agrees_eval_sum (es : List (Expr α)) :
    Agrees ((Expr.sum es).eval env) (Scalar.sum (es.map (eval env))) :=
  agrees_eval_foldl_add env es (agrees_symm (agrees_of_beq Summation.beq_neg_zero))

end Optima.Expr
