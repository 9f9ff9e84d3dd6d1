import Optima.Proofs.Expr.Folded
import Optima.Proofs.Scalar.Exact

/-!
Derivatives that can only be zero, in exact arithmetic.

* `Vanishes`: where the value of an expression is a number, it is zero.
* `eval_of_ofBinary`: folding makes up a value only by dropping what is multiplied by zero.
* `Still`: a symbol does not occur in an expression, or is not a number although the expression is.
* `vanishes_diff`: the derivative along such a symbol vanishes.
-/

namespace Optima.Expr

open Exact (finite)

variable {F : Type} [Field F] [LinearOrder F] [Elementary F] {env : Symbol → Exact F}
  {a b : Expr (Exact F)} {z : F}

/-- The value can only be zero. -/
def Vanishes (env : Symbol → Exact F) (e : Expr (Exact F)) : Prop :=
  ∀ z, e.eval env = finite z → z = 0

theorem vanishes_zero : Vanishes env (const 0) := by
  rintro z ⟨⟩
  rfl

/-! ## Folding constructors -/

theorem eval_of_neg (h : (ofUnary .neg a).eval env = finite z) : a.eval env = finite (-z) := by
  cases a with
  | unary inner arg =>
    rw [ofUnary] at h
    split at h
    · next hn =>
      obtain ⟨-, rfl⟩ := hn
      rw [eval, h]
      rfl
    · exact Exact.neg_eq_finite.1 h
  | _ => exact Exact.neg_eq_finite.1 h

theorem eval_of_fromLeft? {v : Exact F} {op : BinaryOp} {r e : Expr (Exact F)}
    (he : fromLeft? v op r = some e) (h : e.eval env = finite z) :
    (binary (const v) op r).eval env = finite z ∨ z = 0 := by
  cases op with
  | add =>
    simp only [fromLeft?, Exact.zero_def, Exact.beq_finite_iff, Option.ite_none_right_eq_some,
      Option.some.injEq] at he
    obtain ⟨rfl, rfl⟩ := he
    refine .inl ?_
    rw [eval, eval, h, BinaryOp.apply, Exact.finite_add, zero_add]
  | sub =>
    simp only [fromLeft?, Exact.zero_def, Exact.beq_finite_iff, Option.ite_none_right_eq_some,
      Option.some.injEq] at he
    obtain ⟨rfl, rfl⟩ := he
    refine .inl ?_
    rw [eval, eval, eval_of_neg h, BinaryOp.apply, Exact.finite_sub, zero_sub, neg_neg]
  | mul =>
    simp only [fromLeft?, Exact.zero_def, Exact.one_def, Exact.beq_finite_iff] at he
    split at he
    · cases he
      exact .inr (vanishes_zero z h)
    · simp only [Option.ite_none_right_eq_some, Option.some.injEq] at he
      obtain ⟨rfl, rfl⟩ := he
      refine .inl ?_
      rw [eval, eval, h, BinaryOp.apply, Exact.finite_mul, one_mul]
  | div =>
    simp only [fromLeft?, Option.ite_none_right_eq_some, Option.some.injEq] at he
    obtain ⟨-, rfl⟩ := he
    exact .inr (vanishes_zero z h)
  | pow => cases he

theorem eval_of_fromRight? {l e : Expr (Exact F)} {op : BinaryOp} {w : Exact F} (hop : op ≠ .pow)
    (he : fromRight? l op w = some e) (h : e.eval env = finite z) :
    (binary l op (const w)).eval env = finite z ∨ z = 0 := by
  cases op with
  | add =>
    simp only [fromRight?, Exact.zero_def, Exact.beq_finite_iff, Option.ite_none_right_eq_some,
      Option.some.injEq] at he
    obtain ⟨rfl, rfl⟩ := he
    refine .inl ?_
    rw [eval, eval, h, BinaryOp.apply, Exact.finite_add, add_zero]
  | sub =>
    simp only [fromRight?, Exact.zero_def, Exact.beq_finite_iff, Option.ite_none_right_eq_some,
      Option.some.injEq] at he
    obtain ⟨rfl, rfl⟩ := he
    refine .inl ?_
    rw [eval, eval, h, BinaryOp.apply, Exact.finite_sub, sub_zero]
  | mul =>
    simp only [fromRight?, Exact.zero_def, Exact.one_def, Exact.beq_finite_iff] at he
    split at he
    · cases he
      exact .inr (vanishes_zero z h)
    · simp only [Option.ite_none_right_eq_some, Option.some.injEq] at he
      obtain ⟨rfl, rfl⟩ := he
      refine .inl ?_
      rw [eval, eval, h, BinaryOp.apply, Exact.finite_mul, mul_one]
  | div =>
    simp only [fromRight?, Exact.one_def, Exact.beq_finite_iff, Option.ite_none_right_eq_some,
      Option.some.injEq] at he
    obtain ⟨rfl, rfl⟩ := he
    refine .inl ?_
    rw [eval, eval, h, BinaryOp.apply, Exact.finite_div z one_ne_zero, div_one]
  | pow => exact absurd rfl hop

/-- A value that the plain node would not have comes from a product or a quotient with the constant
zero. -/
theorem eval_of_ofBinary (op : BinaryOp) (hop : op ≠ .pow)
    (h : (ofBinary a op b).eval env = finite z) :
    (binary a op b).eval env = finite z ∨ z = 0 := by
  rcases ofBinary_cases a op b with ⟨v, w, rfl, rfl, he⟩ | ⟨v, rfl, -, he⟩ | ⟨w, -, rfl, he⟩ |
    ⟨-, -, he⟩ <;> rw [he] at h
  · exact .inl h
  · cases hf : fromLeft? v op b with
    | some e =>
      rw [hf] at h
      exact eval_of_fromLeft? hf h
    | none =>
      rw [hf] at h
      exact .inl h
  · cases hf : fromRight? a op w with
    | some e =>
      rw [hf] at h
      exact eval_of_fromRight? hop hf h
    | none =>
      rw [hf] at h
      exact .inl h
  · exact .inl h

/-! ## What vanishes -/

theorem vanishes_neg (ha : Vanishes env a) : Vanishes env (-a) := fun _ h =>
  neg_eq_zero.1 (ha _ (eval_of_neg h))

theorem vanishes_add (ha : Vanishes env a) (hb : Vanishes env b) : Vanishes env (a + b) := by
  intro z h
  rcases eval_of_ofBinary .add nofun h with h | h
  · obtain ⟨x, y, hx, hy, rfl⟩ := Exact.add_eq_finite.1 h
    rw [ha x hx, hb y hy, add_zero]
  · exact h

theorem vanishes_sub (ha : Vanishes env a) (hb : Vanishes env b) : Vanishes env (a - b) := by
  intro z h
  rcases eval_of_ofBinary .sub nofun h with h | h
  · obtain ⟨x, y, hx, hy, rfl⟩ := Exact.sub_eq_finite.1 h
    rw [ha x hx, hb y hy, sub_zero]
  · exact h

theorem vanishes_mul_left (ha : Vanishes env a) : Vanishes env (a * b) := by
  intro z h
  rcases eval_of_ofBinary .mul nofun h with h | h
  · obtain ⟨x, y, hx, -, rfl⟩ := Exact.mul_eq_finite.1 h
    rw [ha x hx, zero_mul]
  · exact h

theorem vanishes_mul_right (hb : Vanishes env b) : Vanishes env (a * b) := by
  intro z h
  rcases eval_of_ofBinary .mul nofun h with h | h
  · obtain ⟨x, y, -, hy, rfl⟩ := Exact.mul_eq_finite.1 h
    rw [hb y hy, mul_zero]
  · exact h

theorem vanishes_div (ha : Vanishes env a) : Vanishes env (a / b) := by
  intro z h
  rcases eval_of_ofBinary .div nofun h with h | h
  · obtain ⟨x, y, hx, -, -, rfl⟩ := Exact.div_eq_finite.1 h
    rw [ha x hx, zero_div]
  · exact h

theorem vanishes_chainRule (op : UnaryOp) (hb : Vanishes env b) :
    Vanishes env (chainRule op a b) := by
  cases op with
  | neg => exact vanishes_neg hb
  | sin | cos | exp | abs => exact vanishes_mul_right hb
  | tan | ln | sqrt => exact vanishes_div hb
  | sign => exact vanishes_zero

theorem vanishes_diffPow {base exponent dBase dExponent : Expr (Exact F)}
    (hb : Vanishes env dBase) (he : Vanishes env dExponent) :
    Vanishes env (diffPow base exponent dBase dExponent) := by
  unfold diffPow
  split
  · exact vanishes_mul_right hb
  · exact vanishes_mul_right
      (vanishes_add (vanishes_mul_left he) (vanishes_div (vanishes_mul_right hb)))

/-! ## Derivatives -/

/-- The value of an operation that is not the sign is a number only if that of its argument is. -/
theorem arg_finite {op : UnaryOp} (hop : op ≠ .sign) {v : Exact F} (h : op.apply v = finite z) :
    ∃ x, v = finite x := by
  cases v with
  | finite x => exact ⟨x, rfl⟩
  | infinite n => cases op <;> first | exact absurd rfl hop | cases h
  | undefined => cases op <;> first | exact absurd rfl hop | cases h

theorem operands_finite {op : BinaryOp} {v w : Exact F} (h : op.apply v w = finite z) :
    (∃ x, v = finite x) ∧ ∃ y, w = finite y := by
  cases op with
  | add =>
    obtain ⟨x, y, hx, hy, -⟩ := Exact.add_eq_finite.1 h
    exact ⟨⟨x, hx⟩, ⟨y, hy⟩⟩
  | sub =>
    obtain ⟨x, y, hx, hy, -⟩ := Exact.sub_eq_finite.1 h
    exact ⟨⟨x, hx⟩, ⟨y, hy⟩⟩
  | _ =>
    obtain ⟨x, y, hx, hy, -⟩ := Exact.lift₂_eq_finite.1 h
    exact ⟨⟨x, hx⟩, ⟨y, hy⟩⟩

/-- The symbol does not occur in the expression, or has no number as its value although the
expression has. -/
def Still (env : Symbol → Exact F) (s : Symbol) (e : Expr (Exact F)) : Prop :=
  e.dependsOn s = false ∨ Scalar.isFinite (env s) = false ∧ ∃ z, e.eval env = finite z

theorem Still.arg {s : Symbol} {op : UnaryOp} (hop : op ≠ .sign)
    (h : Still env s (unary op a)) : Still env s a := by
  rcases h with hn | ⟨hs, z, hz⟩
  · exact .inl hn
  · exact .inr ⟨hs, arg_finite hop hz⟩

theorem Still.operands {s : Symbol} {op : BinaryOp} (h : Still env s (binary a op b)) :
    Still env s a ∧ Still env s b := by
  rcases h with hn | ⟨hs, z, hz⟩
  · obtain ⟨ha, hb⟩ := Bool.or_eq_false_iff.1 hn
    exact ⟨.inl ha, .inl hb⟩
  · obtain ⟨ha, hb⟩ := operands_finite hz
    exact ⟨.inr ⟨hs, ha⟩, .inr ⟨hs, hb⟩⟩

theorem vanishes_diff {s : Symbol} {e : Expr (Exact F)} (h : Still env s e) :
    Vanishes env (e.diff s) := by
  induction e with
  | const v => exact vanishes_zero
  | sym t =>
    rw [diff, if_neg]
    · exact vanishes_zero
    · rintro rfl
      rcases h with h | ⟨hs, z, hz⟩
      · simp [dependsOn] at h
      · rw [eval] at hz
        simp [hz] at hs
  | unary op arg ih =>
    have hchain : Vanishes env (chainRule op arg (arg.diff s)) := by
      by_cases hop : op = .sign
      · subst hop
        exact vanishes_zero
      · exact vanishes_chainRule op (ih (h.arg hop))
    rw [diff]
    split
    · split
      · exact vanishes_zero
      · next hd _ => exact hd ▸ hchain
    · exact hchain
  | binary l op r ihl ihr =>
    obtain ⟨hl, hr⟩ := h.operands
    have hdl := ihl hl
    have hdr := ihr hr
    cases op with
    | add => exact vanishes_add hdl hdr
    | sub => exact vanishes_sub hdl hdr
    | mul => exact vanishes_add (vanishes_mul_left hdl) (vanishes_mul_right hdr)
    | div => exact vanishes_sub (vanishes_div hdl) (vanishes_div (vanishes_mul_right hdr))
    | pow => exact vanishes_diffPow hdl hdr

end Optima.Expr
