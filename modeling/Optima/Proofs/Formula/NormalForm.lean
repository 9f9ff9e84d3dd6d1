import Optima.Proofs.Expr.Meaning
import Optima.Proofs.Formula.Reprint

/-!
Folding once is enough.

* `folded_refold`: a tree built anew is folded; `refold_eq_self_iff`: it is the tree itself exactly
  if that was folded before.
* `folded_of_parse`: what a text reads as is folded.
* `Obtained`: what readers of formulas, operations, sums and derivatives make of folded expressions;
  `Obtained.folded`: it is folded.
* `folded_throughout`: all of this, whatever the constants are.
-/

namespace Optima

variable {α : Type} [Scalar α]

namespace Expr

/-! ## Building anew -/

theorem folded_refold (e : Expr α) : e.refold.Folded := by
  induction e with
  | const v => trivial
  | sym s => trivial
  | unary op a ih => exact folded_ofUnary ih
  | binary l op r ihl ihr => exact folded_ofBinary ihl ihr

theorem refold_of_folded {e : Expr α} (h : e.Folded) : e.refold = e := by
  induction e with
  | const v => rfl
  | sym s => rfl
  | unary op a ih => rw [refold, ih h.1, ofUnary_of_folded h]
  | binary l op r ihl ihr => rw [refold, ihl h.1, ihr h.2.1, ofBinary_of_folded h]

theorem refold_eq_self_iff {e : Expr α} : e.refold = e ↔ e.Folded := by
  constructor
  · intro h
    rw [← h]
    exact folded_refold e
  · exact refold_of_folded

end Expr

namespace Formula

/-! ## Where expressions come from -/

theorem folded_of_parse {scope : Scope} {text : String} {e : Expr α}
    (h : parse scope text = .ok e) : e.Folded := by
  obtain ⟨d, -, -, -, rfl⟩ := derivation_of_parse h
  exact holds_image kept_folded d fun _ _ _ _ _ => trivial

/-- The expressions that come of folded ones, and of formulas, by any number of operations, sums and
derivatives. Constants and symbols are folded. -/
inductive Obtained : Expr α → Prop
  | given {e : Expr α} (h : e.Folded) : Obtained e
  | read {scope : Scope} {text : String} {e : Expr α} (h : parse scope text = .ok e) : Obtained e
  | unary (op : UnaryOp) {a : Expr α} (h : Obtained a) : Obtained (Expr.ofUnary op a)
  | binary (op : BinaryOp) {l r : Expr α} (hl : Obtained l) (hr : Obtained r) :
      Obtained (Expr.ofBinary l op r)
  | sum {es : List (Expr α)} (h : ∀ e ∈ es, Obtained e) : Obtained (Expr.sum es)
  | diff (s : Symbol) {e : Expr α} (h : Obtained e) : Obtained (e.diff s)

theorem Obtained.folded {e : Expr α} (h : Obtained e) : e.Folded := by
  induction h with
  | given h => exact h
  | read h => exact folded_of_parse h
  | unary op h ih => exact Expr.folded_ofUnary ih
  | binary op hl hr ihl ihr => exact Expr.folded_ofBinary ihl ihr
  | sum h ih => exact Expr.folded_sum ih
  | diff s h ih => exact Expr.folded_diff s ih

/-- The folding constructors keep folded operands folded, and so does everything that is put
together from them; on folded expressions, and on no others, building anew changes nothing. This is
so over all scalars: infinite and undefined constants are no exception. -/
theorem folded_throughout :
    (∀ (op : UnaryOp) (a : Expr α), a.Folded → (Expr.ofUnary op a).Folded) ∧
    (∀ (l : Expr α) (op : BinaryOp) (r : Expr α), l.Folded → r.Folded →
      (Expr.ofBinary l op r).Folded) ∧
    (∀ e : Expr α, Obtained e → e.Folded) ∧
    ∀ e : Expr α, e.refold = e ↔ e.Folded :=
  ⟨fun _ _ h => Expr.folded_ofUnary h, fun _ _ _ hl hr => Expr.folded_ofBinary hl hr,
    fun _ h => h.folded, fun _ => Expr.refold_eq_self_iff⟩

/-- Two signs cancel, and the sign of what is left stays. -/
example (s : Symbol) : (.unary .neg (.unary .neg (.unary .neg (.sym s))) : Expr α).refold =
    .unary .neg (.sym s) := rfl

end Formula

end Optima
