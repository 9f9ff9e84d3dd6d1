import Optima.Proofs.Expr.Compiled
import Optima.Proofs.Expr.Folded
import Optima.Proofs.Scalar.Identities

/-!
Folding keeps the meaning of an expression where it is finite.

Several of the identities that the folding constructors apply fail for infinite and undefined
operands, and some change the sign of a zero. Where every part of a tree is finite none of them
fails, and no operation above a zero makes more of its sign than the sign of another zero.

* `FiniteAt`: every part of a tree has a finite value.
* `refold`: a tree built anew with the folding constructors, from the leaves to the root.
* `Keeps`: an expression is finite in all its parts, and has the value that is asked for;
  `keeps_ofUnary`, `keeps_ofBinary`: the folding constructors keep values.
* `keeps_refold`, `beq_evaluate_refold`: so the values of a tree are kept when it is built anew, under
  an assignment and by compiled functions.
-/

namespace Optima.Expr

variable {α : Type} [Scalar α]

/-- Every part of the tree has a finite value. -/
def FiniteAt (env : Symbol → α) : Expr α → Prop
  | const v => Scalar.isFinite v = true
  | sym s => Scalar.isFinite (env s) = true
  | unary op a => a.FiniteAt env ∧ Scalar.isFinite (op.apply (a.eval env)) = true
  | binary l op r =>
    l.FiniteAt env ∧ r.FiniteAt env ∧ Scalar.isFinite (op.apply (l.eval env) (r.eval env)) = true

/-- The tree built anew with the folding constructors. -/
def refold : Expr α → Expr α
  | const v => const v
  | sym s => sym s
  | unary op a => ofUnary op a.refold
  | binary l op r => ofBinary l.refold op r.refold

theorem isFinite_eval {env : Symbol → α} {e : Expr α} (h : e.FiniteAt env) :
    Scalar.isFinite (e.eval env) = true := by
  cases e with
  | const v => exact h
  | sym s => exact h
  | unary op a => exact h.2
  | binary l op r => exact h.2.2

theorem occurrences_refold_subset (e : Expr α) : e.refold.occurrences ⊆ e.occurrences := by
  induction e with
  | const v => exact List.Subset.refl _
  | sym s => exact List.Subset.refl _
  | unary op a ih => exact List.Subset.trans (occurrences_ofUnary_subset op a.refold) ih
  | binary l op r ihl ihr =>
    refine List.Subset.trans (occurrences_ofBinary_subset l.refold op r.refold) ?_
    exact List.append_subset.2 ⟨List.subset_append_of_subset_left _ ihl,
      List.subset_append_of_subset_right _ ihr⟩

/-! ## The folding constructors -/

/-- The expression is finite in all its parts, and its value equals the given one. -/
structure Keeps (env : Symbol → α) (e : Expr α) (x : α) : Prop where
  finite : e.FiniteAt env
  beq : (e.eval env == x) = true

variable [Functions α] {env : Symbol → α} {a l r e : Expr α} {x y v : α}

theorem Keeps.isFinite (h : Keeps env e x) : Scalar.isFinite x = true :=
  isFinite_of_beq (beq_symm h.beq) (isFinite_eval h.finite)

theorem Keeps.of_beq (h : Keeps env e x) (hyx : (y == x) = true) : Keeps env e y :=
  ⟨h.finite, beq_trans h.beq (beq_symm hyx)⟩

theorem keeps_const (h : (x == v) = true) (hx : Scalar.isFinite x = true) :
    Keeps env (const v) x := ⟨isFinite_of_beq (beq_symm h) hx, beq_symm h⟩

theorem keeps_unary {op : UnaryOp} (h : Keeps env a x)
    (hf : Scalar.isFinite (op.apply x) = true) : Keeps env (unary op a) (op.apply x) := by
  have hbeq : (op.apply (a.eval env) == op.apply x) = true :=
    beq_symm (beq_unary op (beq_symm h.beq) hf)
  exact ⟨⟨h.finite, isFinite_of_beq hbeq hf⟩, hbeq⟩

theorem keeps_binary {op : BinaryOp} (hl : Keeps env l x) (hr : Keeps env r y)
    (hf : Scalar.isFinite (op.apply x y) = true) :
    Keeps env (binary l op r) (op.apply x y) := by
  have hbeq : (op.apply (l.eval env) (r.eval env) == op.apply x y) = true :=
    beq_symm (beq_binary op (beq_symm hl.beq) (beq_symm hr.beq) hf)
  exact ⟨⟨hl.finite, hr.finite, isFinite_of_beq hbeq hf⟩, hbeq⟩

/-- Two signs in a row cancel. -/
theorem keeps_of_neg (h : Keeps env (unary .neg a) x) : Keeps env a (-x) := by
  have hfinite : Scalar.isFinite (a.eval env) = true := isFinite_eval h.finite.1
  have hneg : Scalar.isFinite (- -a.eval env) = true :=
    Arithmetic.isFinite_neg (Arithmetic.isFinite_neg hfinite)
  have hcancel : (a.eval env == - -a.eval env) = true :=
    beq_symm (Identities.beq_neg_neg hfinite)
  exact ⟨h.finite.1, beq_trans hcancel (Identities.beq_neg h.beq hneg)⟩

theorem keeps_ofUnary {op : UnaryOp} (h : Keeps env a x)
    (hf : Scalar.isFinite (op.apply x) = true) : Keeps env (ofUnary op a) (op.apply x) := by
  cases a with
  | const v => exact keeps_const (beq_unary op (beq_symm h.beq) hf) hf
  | unary inner arg =>
    rw [ofUnary]
    split
    · next hneg =>
      obtain ⟨rfl, rfl⟩ := hneg
      exact keeps_of_neg h
    · exact keeps_unary h hf
  | sym s => exact keeps_unary h hf
  | binary l op r => exact keeps_unary h hf

/-- One case for each identity with a constant on the left: the operation with this constant in the
place of the operand that equals it. -/
theorem keeps_fromLeft? {op : BinaryOp} (hv : (v == x) = true) (hr : Keeps env r y)
    (hf : Scalar.isFinite (op.apply x y) = true) (h : fromLeft? v op r = some e) :
    Keeps env e (op.apply x y) := by
  have hy : (y == y) = true := beq_self_of_isFinite hr.isFinite
  have hzero (h0 : (v == 0) = true) : (x == 0) = true := beq_trans (beq_symm hv) h0
  have hone (h1 : (v == 1) = true) : (x == 1) = true := beq_trans (beq_symm hv) h1
  cases op with
  | add =>
    rw [fromLeft?] at h
    split at h
    · next h0 =>
      cases h
      have hsum := Summation.agrees_zero_add (a := y) (hzero h0)
      exact hr.of_beq (beq_of_agrees hsum (Arithmetic.isNaN_of_isFinite hr.isFinite))
    · cases h
  | sub =>
    rw [fromLeft?] at h
    split at h
    · next h0 =>
      cases h
      have hneg : (x - y == -y) = true :=
        beq_trans (Identities.beq_sub (hzero h0) hy hf) (Identities.beq_zero_sub hr.isFinite)
      have hkeeps : Keeps env (ofUnary .neg r) (UnaryOp.neg.apply y) :=
        keeps_ofUnary hr (Arithmetic.isFinite_neg hr.isFinite)
      exact hkeeps.of_beq hneg
    · cases h
  | mul =>
    rw [fromLeft?] at h
    split at h
    · next h0 =>
      cases h
      exact keeps_const (ZeroLaws.zero_mul (hzero h0) hr.isFinite) hf
    · split at h
      · next h1 =>
        cases h
        exact hr.of_beq
          (beq_trans (Identities.beq_mul (hone h1) hy hf) (Identities.beq_one_mul hr.isFinite))
      · cases h
  | div =>
    rw [fromLeft?] at h
    split at h
    · next h0 =>
      cases h
      -- a zero that is divided by a zero would be undefined
      have hne : (y == 0) = false := by
        rw [← Bool.not_eq_true]
        intro hy0
        have hdefined : Scalar.isNaN (x / y) = false := Arithmetic.isNaN_of_isFinite hf
        rw [ZeroLaws.isNaN_zero_div (hzero h0) hy0] at hdefined
        cases hdefined
      exact keeps_const (ZeroLaws.zero_div (hzero h0) hne
        (Arithmetic.isNaN_of_isFinite hr.isFinite)) hf
    · cases h
  | pow => cases h

/-- The same with a constant on the right. -/
theorem keeps_fromRight? {op : BinaryOp} (hl : Keeps env l x) (hv : (v == y) = true)
    (hf : Scalar.isFinite (op.apply x y) = true) (h : fromRight? l op v = some e) :
    Keeps env e (op.apply x y) := by
  have hx : (x == x) = true := beq_self_of_isFinite hl.isFinite
  have hzero (h0 : (v == 0) = true) : (y == 0) = true := beq_trans (beq_symm hv) h0
  have hone (h1 : (v == 1) = true) : (y == 1) = true := beq_trans (beq_symm hv) h1
  cases op with
  | add =>
    rw [fromRight?] at h
    split at h
    · next h0 =>
      cases h
      have hsum := Summation.agrees_add_zero (a := x) (hzero h0)
      exact hl.of_beq (beq_of_agrees hsum (Arithmetic.isNaN_of_isFinite hl.isFinite))
    · cases h
  | sub =>
    rw [fromRight?] at h
    split at h
    · next h0 =>
      cases h
      exact hl.of_beq
        (beq_trans (Identities.beq_sub hx (hzero h0) hf) (Identities.beq_sub_zero hl.isFinite))
    · cases h
  | mul =>
    rw [fromRight?] at h
    split at h
    · next h0 =>
      cases h
      exact keeps_const (ZeroLaws.mul_zero hl.isFinite (hzero h0)) hf
    · split at h
      · next h1 =>
        cases h
        exact hl.of_beq
          (beq_trans (Identities.beq_mul hx (hone h1) hf) (Identities.beq_mul_one hl.isFinite))
      · cases h
  | div =>
    rw [fromRight?] at h
    split at h
    · next h1 =>
      cases h
      exact hl.of_beq
        (beq_trans (Identities.beq_div hx (hone h1) hf) (Identities.beq_div_one hl.isFinite))
    · cases h
  | pow =>
    rw [fromRight?] at h
    split at h
    · next h0 =>
      cases h
      exact keeps_const
        (beq_trans (Functions.beq_pow hx (hzero h0) hf) (Functions.beq_pow_zero hl.isFinite)) hf
    · split at h
      · next h1 =>
        cases h
        exact hl.of_beq
          (beq_trans (Functions.beq_pow hx (hone h1) hf) (Functions.beq_pow_one hl.isFinite))
      · cases h

theorem keeps_ofBinary {op : BinaryOp} (hl : Keeps env l x) (hr : Keeps env r y)
    (hf : Scalar.isFinite (op.apply x y) = true) :
    Keeps env (ofBinary l op r) (op.apply x y) := by
  rcases ofBinary_cases l op r with ⟨v, w, rfl, rfl, h⟩ | ⟨v, rfl, -, h⟩ | ⟨w, -, rfl, h⟩ |
    ⟨-, -, h⟩ <;> rw [h]
  · exact keeps_const (beq_binary op (beq_symm hl.beq) (beq_symm hr.beq) hf) hf
  · cases hfold : fromLeft? v op r with
    | none => exact keeps_binary hl hr hf
    | some e => exact keeps_fromLeft? hl.beq hr hf hfold
  · cases hfold : fromRight? l op w with
    | none => exact keeps_binary hl hr hf
    | some e => exact keeps_fromRight? hl hr.beq hf hfold
  · exact keeps_binary hl hr hf

/-! ## Whole trees -/

/-- The induction is on the tree. That the parts built anew are finite as well is carried along,
since a sign that is cancelled has been left out of the tree before. -/
theorem keeps_refold {e : Expr α} (h : e.FiniteAt env) : Keeps env e.refold (e.eval env) := by
  induction e with
  | const v => exact keeps_const (beq_self_of_isFinite h) h
  | sym s => exact ⟨h, beq_self_of_isFinite h⟩
  | unary op a ih => exact keeps_ofUnary (ih h.1) h.2
  | binary l op r ihl ihr => exact keeps_ofBinary (ihl h.1) (ihr h.2.1) h.2.2

/-- Compiled functions evaluate the two trees alike. -/
theorem beq_evaluate_refold {inputs : List Symbol} {values : List α} {e : Expr α}
    (hfinite : e.FiniteAt (assignment inputs values)) (h : evaluate inputs e values = .ok v) :
    ∃ w, evaluate inputs e.refold values = .ok w ∧ (w == v) = true := by
  obtain ⟨hsubset, hlength, rfl⟩ := evaluate_eq_ok_iff.1 h
  have hrefold : e.refold.occurrences ⊆ inputs :=
    List.Subset.trans (occurrences_refold_subset e) hsubset
  exact ⟨_, evaluate_eq_ok_iff.2 ⟨hrefold, hlength, rfl⟩, (keeps_refold hfinite).beq⟩

end Optima.Expr
