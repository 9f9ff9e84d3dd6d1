import Mathlib.Analysis.Calculus.Deriv.Abs
import Mathlib.Analysis.SpecialFunctions.Pow.Deriv
import Mathlib.Analysis.SpecialFunctions.Sqrt
import Mathlib.Analysis.SpecialFunctions.Trigonometric.ArctanDeriv
import Optima.Proofs.Expr.Folded
import Optima.Proofs.Scalar.Exact

/-!
Derivatives of expressions over the reals are the derivatives of their values.

* `Expr.Smooth`: every part of an expression is defined at a point and has a derivative there.
* `Expr.HasPartial`: the values of an expression have a derivative along one symbol.
* `valueAt_ofBinary`, `valueAt_ofUnary`: folding does not change a value that is defined.
* `valueAt_chainRule`, `valueAt_diffPow`: the rules for functions and powers, term by term.
* `exists_hasPartial`: at a smooth point the derivative is defined, and its value is the partial
  derivative.
-/

open Filter Topology

namespace Optima

open Classical in
/-- The elementary functions of the reals. A power of a negative number needs a whole exponent, and
one of zero an exponent that is not negative. -/
noncomputable instance : Elementary ℝ where
  pi := Real.pi
  euler := Real.exp 1
  sqrt x := if x < 0 then none else some √x
  sin x := some (Real.sin x)
  cos x := some (Real.cos x)
  tan x := if Real.cos x = 0 then none else some (Real.tan x)
  exp x := some (Real.exp x)
  ln x := if 0 < x then some (Real.log x) else none
  pow x y := if (x < 0 ∧ ¬ ∃ n : ℤ, y = n) ∨ (x = 0 ∧ y < 0) then none else some (x ^ y)

/-! ## Functions of one argument -/

namespace UnaryOp

/-- Where the function is defined and has a derivative. -/
def SmoothAt : UnaryOp → ℝ → Prop
  | tan, x => Real.cos x ≠ 0
  | ln, x | sqrt, x => 0 < x
  | abs, x | sign, x => x ≠ 0
  | _, _ => True

noncomputable def onReal : UnaryOp → ℝ → ℝ
  | neg, x => -x
  | sin, x => Real.sin x
  | cos, x => Real.cos x
  | tan, x => Real.tan x
  | exp, x => Real.exp x
  | ln, x => Real.log x
  | sqrt, x => √x
  | abs, x => |x|
  | sign, x => SignType.sign x

noncomputable def slope : UnaryOp → ℝ → ℝ
  | neg, _ => -1
  | sin, x => Real.cos x
  | cos, x => -Real.sin x
  | tan, x => 1 / Real.cos x ^ 2
  | exp, x => Real.exp x
  | ln, x => x⁻¹
  | sqrt, x => 1 / (2 * √x)
  | abs, x => SignType.sign x
  | sign, _ => 0

theorem sign_finite (x : ℝ) : Scalar.sign (Exact.finite x) = .finite (SignType.sign x : ℝ) := by
  simp only [Scalar.sign, Exact.zero_def, Exact.one_def, Exact.finite_lt]
  rcases lt_trichotomy x 0 with h | rfl | h
  · simp [h, not_lt_of_gt h]
  · simp
  · simp [h]

theorem apply_finite {op : UnaryOp} {x : ℝ} (h : op.SmoothAt x) :
    op.apply (Exact.finite x) = .finite (op.onReal x) := by
  cases op with
  | tan => exact congrArg Exact.ofOption (if_neg h)
  | ln => exact congrArg Exact.ofOption (if_pos h)
  | sqrt => exact congrArg Exact.ofOption (if_neg (not_lt.2 (le_of_lt h)))
  | sign => exact sign_finite x
  | _ => rfl

theorem eventually_smoothAt {op : UnaryOp} {x : ℝ} (h : op.SmoothAt x) :
    ∀ᶠ y in 𝓝 x, op.SmoothAt y := by
  cases op with
  | tan => exact Real.continuous_cos.continuousAt.eventually_ne h
  | ln | sqrt => exact eventually_gt_nhds h
  | abs | sign => exact eventually_ne_nhds h
  | _ => exact Eventually.of_forall fun _ => trivial

theorem hasDerivAt_sign {x : ℝ} (h : x ≠ 0) :
    HasDerivAt (fun y : ℝ => (SignType.sign y : ℝ)) 0 x := by
  refine (hasDerivAt_const x (SignType.sign x : ℝ)).congr_of_eventuallyEq ?_
  rcases lt_or_gt_of_ne h with h | h
  · filter_upwards [eventually_lt_nhds h] with y hy
    rw [sign_neg hy, sign_neg h]
  · filter_upwards [eventually_gt_nhds h] with y hy
    rw [sign_pos hy, sign_pos h]

theorem hasDerivAt_onReal {op : UnaryOp} {x : ℝ} (h : op.SmoothAt x) :
    HasDerivAt op.onReal (op.slope x) x := by
  cases op with
  | neg => exact hasDerivAt_neg x
  | sin => exact Real.hasDerivAt_sin x
  | cos => exact Real.hasDerivAt_cos x
  | tan => exact Real.hasDerivAt_tan h
  | exp => exact Real.hasDerivAt_exp x
  | ln => exact Real.hasDerivAt_log (ne_of_gt h)
  | sqrt => exact Real.hasDerivAt_sqrt (ne_of_gt h)
  | abs => exact hasDerivAt_abs h
  | sign => exact hasDerivAt_sign h

end UnaryOp

/-! ## Values and folding -/

namespace Expr

/-- The value at a point of the reals. -/
noncomputable def valueAt (env : Symbol → ℝ) (e : Expr (Exact ℝ)) : Exact ℝ :=
  e.eval fun s => .finite (env s)

variable {env : Symbol → ℝ}

theorem valueAt_const (v : Exact ℝ) : (const v).valueAt env = v := rfl

theorem valueAt_unary (op : UnaryOp) (a : Expr (Exact ℝ)) :
    (unary op a).valueAt env = op.apply (a.valueAt env) := rfl

theorem valueAt_binary (l : Expr (Exact ℝ)) (op : BinaryOp) (r : Expr (Exact ℝ)) :
    (binary l op r).valueAt env = op.apply (l.valueAt env) (r.valueAt env) := rfl

theorem valueAt_ofUnary {op : UnaryOp} {a : Expr (Exact ℝ)} {x : ℝ}
    (ha : a.valueAt env = .finite x) : (ofUnary op a).valueAt env = op.apply (.finite x) := by
  cases a with
  | const v => rw [ofUnary, valueAt_const, ← ha, valueAt_const]
  | unary inner arg =>
    rw [ofUnary]
    split
    · next h =>
      obtain ⟨rfl, rfl⟩ := h
      exact Exact.neg_eq_finite.1 ha
    · rw [valueAt_unary, ha]
  | _ => rw [ofUnary, valueAt_unary, ha] <;> simp

theorem valueAt_fromLeft? {op : BinaryOp} {r e : Expr (Exact ℝ)} {x y z : ℝ}
    (hr : r.valueAt env = .finite y) (h : op.apply (Exact.finite x) (.finite y) = .finite z)
    (he : fromLeft? (.finite x) op r = some e) : e.valueAt env = .finite z := by
  cases op with
  | add =>
    simp only [fromLeft?, Exact.zero_def, Exact.finite_beq, decide_eq_true_eq,
      Option.ite_none_right_eq_some, Option.some.injEq] at he
    obtain ⟨rfl, rfl⟩ := he
    rw [hr, ← h, BinaryOp.apply, Exact.finite_add, zero_add]
  | sub =>
    simp only [fromLeft?, Exact.zero_def, Exact.finite_beq, decide_eq_true_eq,
      Option.ite_none_right_eq_some, Option.some.injEq] at he
    obtain ⟨rfl, rfl⟩ := he
    rw [valueAt_ofUnary hr, ← h, UnaryOp.apply, BinaryOp.apply, Exact.neg_finite,
      Exact.finite_sub, zero_sub]
  | mul =>
    simp only [fromLeft?, Exact.zero_def, Exact.one_def, Exact.finite_beq, decide_eq_true_eq] at he
    split at he
    · next hx =>
      cases he
      rw [valueAt_const, ← h, BinaryOp.apply, Exact.finite_mul, hx, zero_mul]
    · simp only [Option.ite_none_right_eq_some, Option.some.injEq] at he
      obtain ⟨rfl, rfl⟩ := he
      rw [hr, ← h, BinaryOp.apply, Exact.finite_mul, one_mul]
  | div =>
    simp only [fromLeft?, Exact.zero_def, Exact.finite_beq, decide_eq_true_eq,
      Option.ite_none_right_eq_some, Option.some.injEq] at he
    obtain ⟨rfl, rfl⟩ := he
    obtain ⟨_, _, ⟨⟩, ⟨⟩, -, rfl⟩ := Exact.div_eq_finite.1 h
    rw [valueAt_const, zero_div]
  | pow => cases he

/-- A power of a positive number, a whole power of a number other than zero, or a whole power that
is not negative. -/
theorem pow_real {x y : ℝ}
    (h : 0 < x ∨ (x ≠ 0 ∧ ∃ n : ℤ, y = n) ∨ ∃ n : ℤ, y = n ∧ 0 ≤ n) :
    Elementary.pow x y = some (x ^ y) := by
  refine if_neg ?_
  rintro (⟨hx, hy⟩ | ⟨hx, hy⟩)
  · rcases h with h | ⟨-, h⟩ | ⟨n, h, -⟩
    · exact lt_asymm h hx
    · exact hy h
    · exact hy ⟨n, h⟩
  · rcases h with h | ⟨h, -⟩ | ⟨n, rfl, h⟩
    · exact absurd hx (ne_of_gt h)
    · exact h hx
    · exact absurd (Int.cast_nonneg h) (not_le.2 hy)

theorem pow_real_zero (x : ℝ) : Elementary.pow x (0 : ℝ) = some 1 := by
  rw [pow_real (.inr (.inr ⟨0, by simp, le_rfl⟩)), Real.rpow_zero]

theorem pow_real_one (x : ℝ) : Elementary.pow x (1 : ℝ) = some x := by
  rw [pow_real (.inr (.inr ⟨1, by simp, by simp⟩)), Real.rpow_one]

theorem pow_real_two (x : ℝ) : Elementary.pow x (2 : ℝ) = some (x ^ 2) := by
  rw [pow_real (.inr (.inr ⟨2, by simp, by simp⟩)), Real.rpow_ofNat]

theorem valueAt_fromRight? {l e : Expr (Exact ℝ)} {op : BinaryOp} {x y z : ℝ}
    (hl : l.valueAt env = .finite x) (h : op.apply (Exact.finite x) (.finite y) = .finite z)
    (he : fromRight? l op (.finite y) = some e) : e.valueAt env = .finite z := by
  cases op with
  | add =>
    simp only [fromRight?, Exact.zero_def, Exact.finite_beq, decide_eq_true_eq,
      Option.ite_none_right_eq_some, Option.some.injEq] at he
    obtain ⟨rfl, rfl⟩ := he
    rw [hl, ← h, BinaryOp.apply, Exact.finite_add, add_zero]
  | sub =>
    simp only [fromRight?, Exact.zero_def, Exact.finite_beq, decide_eq_true_eq,
      Option.ite_none_right_eq_some, Option.some.injEq] at he
    obtain ⟨rfl, rfl⟩ := he
    rw [hl, ← h, BinaryOp.apply, Exact.finite_sub, sub_zero]
  | mul =>
    simp only [fromRight?, Exact.zero_def, Exact.one_def, Exact.finite_beq, decide_eq_true_eq] at he
    split at he
    · next hy =>
      cases he
      rw [valueAt_const, ← h, BinaryOp.apply, Exact.finite_mul, hy, mul_zero]
    · simp only [Option.ite_none_right_eq_some, Option.some.injEq] at he
      obtain ⟨rfl, rfl⟩ := he
      rw [hl, ← h, BinaryOp.apply, Exact.finite_mul, mul_one]
  | div =>
    simp only [fromRight?, Exact.one_def, Exact.finite_beq, decide_eq_true_eq,
      Option.ite_none_right_eq_some, Option.some.injEq] at he
    obtain ⟨rfl, rfl⟩ := he
    obtain ⟨_, _, ⟨⟩, ⟨⟩, -, rfl⟩ := Exact.div_eq_finite.1 h
    rw [hl, div_one]
  | pow =>
    simp only [fromRight?, Exact.zero_def, Exact.one_def, Exact.finite_beq, decide_eq_true_eq] at he
    split at he
    · next hy =>
      cases he
      rw [valueAt_const, ← h, hy, BinaryOp.apply, Exact.pow_finite (pow_real_zero x)]
    · simp only [Option.ite_none_right_eq_some, Option.some.injEq] at he
      obtain ⟨rfl, rfl⟩ := he
      rw [hl, ← h, BinaryOp.apply, Exact.pow_finite (pow_real_one x)]

/-- Folding does not change a value that is defined. -/
theorem valueAt_ofBinary {l r : Expr (Exact ℝ)} {op : BinaryOp} {x y z : ℝ}
    (hl : l.valueAt env = .finite x) (hr : r.valueAt env = .finite y)
    (h : op.apply (Exact.finite x) (.finite y) = .finite z) :
    (ofBinary l op r).valueAt env = .finite z := by
  have hraw : (binary l op r).valueAt env = .finite z := by rw [valueAt_binary, hl, hr, h]
  rcases ofBinary_cases l op r with ⟨v, w, rfl, rfl, he⟩ | ⟨v, rfl, -, he⟩ | ⟨w, -, rfl, he⟩ |
    ⟨-, -, he⟩ <;> rw [he]
  · exact hraw
  · rw [valueAt_const] at hl
    subst hl
    cases hf : fromLeft? (.finite x) op r with
    | some e => exact valueAt_fromLeft? hr h hf
    | none => exact hraw
  · rw [valueAt_const] at hr
    subst hr
    cases hf : fromRight? l op (.finite y) with
    | some e => exact valueAt_fromRight? hl h hf
    | none => exact hraw
  · exact hraw

section

variable {l r : Expr (Exact ℝ)} {x y : ℝ} (hl : l.valueAt env = .finite x)
  (hr : r.valueAt env = .finite y)

include hl

theorem valueAt_neg : (-l).valueAt env = .finite (-x) := valueAt_ofUnary hl

theorem valueAt_unary_smooth {op : UnaryOp} (h : op.SmoothAt x) :
    (ofUnary op l).valueAt env = .finite (op.onReal x) :=
  (valueAt_ofUnary hl).trans (UnaryOp.apply_finite h)

include hr

theorem valueAt_add : (l + r).valueAt env = .finite (x + y) := valueAt_ofBinary hl hr rfl

theorem valueAt_sub : (l - r).valueAt env = .finite (x - y) := valueAt_ofBinary hl hr rfl

theorem valueAt_mul : (l * r).valueAt env = .finite (x * y) := valueAt_ofBinary hl hr rfl

theorem valueAt_div (h : y ≠ 0) : (l / r).valueAt env = .finite (x / y) :=
  valueAt_ofBinary hl hr (Exact.finite_div x h)

theorem valueAt_pow {z : ℝ} (h : Elementary.pow x y = some z) :
    (l.pow r).valueAt env = .finite z :=
  valueAt_ofBinary hl hr (Exact.pow_finite h)

end

/-! ## The chain rule -/

theorem valueAt_chainRule {op : UnaryOp} {arg inner : Expr (Exact ℝ)} {x d : ℝ}
    (ha : arg.valueAt env = .finite x) (hi : inner.valueAt env = .finite d)
    (h : op.SmoothAt x) : (chainRule op arg inner).valueAt env = .finite (op.slope x * d) := by
  have htwo : (const Scalar.two : Expr (Exact ℝ)).valueAt env = .finite 2 := Exact.two_def
  cases op with
  | neg => rw [chainRule, valueAt_neg hi, UnaryOp.slope, neg_one_mul]
  | sin => exact valueAt_mul (valueAt_unary_smooth ha trivial) hi
  | cos => exact valueAt_mul (valueAt_neg (valueAt_unary_smooth ha trivial)) hi
  | tan =>
    have hcos : (ofUnary .cos arg).valueAt env = .finite (Real.cos x) :=
      valueAt_unary_smooth ha trivial
    have hsquare := valueAt_pow hcos htwo (pow_real_two _)
    rw [chainRule, valueAt_div hi hsquare (pow_ne_zero 2 h), UnaryOp.slope, div_mul_eq_mul_div,
      one_mul]
  | exp => exact valueAt_mul (valueAt_unary_smooth ha trivial) hi
  | ln => rw [chainRule, valueAt_div hi ha (ne_of_gt h), UnaryOp.slope, div_eq_inv_mul]
  | sqrt =>
    have hroot : (ofUnary .sqrt arg).valueAt env = .finite √x := valueAt_unary_smooth ha h
    have hne : 2 * √x ≠ 0 := mul_ne_zero two_ne_zero (ne_of_gt (Real.sqrt_pos.2 h))
    rw [chainRule, valueAt_div hi (valueAt_mul htwo hroot) hne, UnaryOp.slope, div_mul_eq_mul_div,
      one_mul]
  | abs => exact valueAt_mul (valueAt_unary_smooth ha h) hi
  | sign => rw [chainRule, valueAt_const, UnaryOp.slope, zero_mul, Exact.zero_def]

/-! ## Smooth points -/

end Expr

/-- Where a power with an exponent that is a constant has a derivative. -/
def PowerSmooth (x y : ℝ) : Prop :=
  0 < x ∨ (x ≠ 0 ∧ ∃ n : ℤ, y = n) ∨ ∃ n : ℤ, y = n ∧ 1 ≤ n

namespace PowerSmooth

variable {x y : ℝ}

theorem defined (h : PowerSmooth x y) :
    0 < x ∨ (x ≠ 0 ∧ ∃ n : ℤ, y = n) ∨ ∃ n : ℤ, y = n ∧ 0 ≤ n := by
  rcases h with h | h | ⟨n, h, hn⟩
  · exact .inl h
  · exact .inr (.inl h)
  · exact .inr (.inr ⟨n, h, zero_le_one.trans hn⟩)

/-- The power with the exponent lowered by one is defined, too. -/
theorem defined_sub_one (h : PowerSmooth x y) :
    0 < x ∨ (x ≠ 0 ∧ ∃ n : ℤ, y - 1 = n) ∨ ∃ n : ℤ, y - 1 = n ∧ 0 ≤ n := by
  rcases h with h | ⟨h, n, rfl⟩ | ⟨n, rfl, hn⟩
  · exact .inl h
  · exact .inr (.inl ⟨h, n - 1, by simp⟩)
  · exact .inr (.inr ⟨n - 1, by simp, sub_nonneg.2 hn⟩)

theorem ne_zero_or_one_le (h : PowerSmooth x y) : x ≠ 0 ∨ 1 ≤ y := by
  rcases h with h | ⟨h, -⟩ | ⟨n, rfl, hn⟩
  · exact .inl (ne_of_gt h)
  · exact .inl h
  · exact .inr (by exact_mod_cast hn)

theorem eventually_of (h : PowerSmooth x y) : ∀ᶠ u in 𝓝 x, PowerSmooth u y := by
  rcases h with h | ⟨h, hy⟩ | h
  · exact (eventually_gt_nhds h).mono fun _ hu => .inl hu
  · exact (eventually_ne_nhds h).mono fun _ hu => .inr (.inl ⟨hu, hy⟩)
  · exact Eventually.of_forall fun _ => .inr (.inr h)

end PowerSmooth

/-- Where the operation is defined and has a derivative; `constant` says that the right operand is a
constant. -/
def BinaryOp.SmoothAt (constant : Bool) : BinaryOp → ℝ → ℝ → Prop
  | div, _, y => y ≠ 0
  | pow, x, y => if constant then PowerSmooth x y else 0 < x
  | _, _, _ => True

namespace Expr

/-- Every part of the expression is defined at the point and smooth there. -/
def Smooth (env : Symbol → ℝ) : Expr (Exact ℝ) → Prop
  | const v => ∃ x, v = .finite x
  | sym _ => True
  | unary op a => a.Smooth env ∧ ∃ x, a.valueAt env = .finite x ∧ op.SmoothAt x
  | binary l op r =>
    l.Smooth env ∧ r.Smooth env ∧
      ∃ x y, l.valueAt env = .finite x ∧ r.valueAt env = .finite y ∧ op.SmoothAt r.isConst x y

/-- Near the point, the values of the expression along the symbol are numbers, and they have the
derivative `d`. -/
def HasPartial (e : Expr (Exact ℝ)) (s : Symbol) (env : Symbol → ℝ) (d : ℝ) : Prop :=
  ∃ φ : ℝ → ℝ, (∀ᶠ t in 𝓝 (env s), e.valueAt (Function.update env s t) = .finite (φ t)) ∧
    HasDerivAt φ d (env s)

namespace HasPartial

variable {s : Symbol} {env : Symbol → ℝ} {l r : Expr (Exact ℝ)} {dl dr x y : ℝ}

theorem const {x : ℝ} : (const (.finite x)).HasPartial s env 0 :=
  ⟨fun _ => x, Eventually.of_forall fun _ => rfl, hasDerivAt_const _ _⟩

theorem sym (t : Symbol) : (sym t).HasPartial s env (if t = s then 1 else 0) := by
  split
  · next h =>
    subst h
    refine ⟨id, Eventually.of_forall fun x => ?_, hasDerivAt_id _⟩
    simp [valueAt, eval]
  · next h =>
    refine ⟨fun _ => env t, Eventually.of_forall fun x => ?_, hasDerivAt_const _ _⟩
    simp [valueAt, eval, Function.update_of_ne h]

/-- The values along the symbol go through the value at the point. -/
theorem eq_at {e : Expr (Exact ℝ)} {φ : ℝ → ℝ}
    (hφ : ∀ᶠ t in 𝓝 (env s), e.valueAt (Function.update env s t) = .finite (φ t))
    (hx : e.valueAt env = .finite x) : φ (env s) = x := by
  have h := hφ.self_of_nhds
  rw [Function.update_eq_self, hx] at h
  exact (Exact.finite.inj h).symm

theorem unary {op : UnaryOp} (ha : l.HasPartial s env dl) (hx : l.valueAt env = .finite x)
    (h : op.SmoothAt x) : (unary op l).HasPartial s env (op.slope x * dl) := by
  obtain ⟨φ, hφ, hd⟩ := ha
  have hat := eq_at hφ hx
  rw [← hat] at h ⊢
  refine ⟨op.onReal ∘ φ, ?_, (UnaryOp.hasDerivAt_onReal h).comp _ hd⟩
  filter_upwards [hφ, hd.continuousAt.eventually (UnaryOp.eventually_smoothAt h)] with t ht hs
  rw [valueAt_unary, ht, UnaryOp.apply_finite hs]
  rfl

/-- The values of an operation on real functions are those of a real function. -/
theorem binary {op : BinaryOp} (hl : l.HasPartial s env dl) (hr : r.HasPartial s env dr)
    (hx : l.valueAt env = .finite x) (hy : r.valueAt env = .finite y) {ψ : ℝ → ℝ → ℝ} {d : ℝ}
    (hdef : ∀ φ χ : ℝ → ℝ, HasDerivAt φ dl (env s) → HasDerivAt χ dr (env s) →
      φ (env s) = x → χ (env s) = y →
      (∀ᶠ t in 𝓝 (env s), op.apply (Exact.finite (φ t)) (.finite (χ t)) = .finite (ψ (φ t) (χ t))) ∧
        HasDerivAt (fun t => ψ (φ t) (χ t)) d (env s)) :
    (binary l op r).HasPartial s env d := by
  obtain ⟨φ, hφ, hdl⟩ := hl
  obtain ⟨χ, hχ, hdr⟩ := hr
  obtain ⟨hev, hd⟩ := hdef φ χ hdl hdr (eq_at hφ hx) (eq_at hχ hy)
  refine ⟨fun t => ψ (φ t) (χ t), ?_, hd⟩
  filter_upwards [hφ, hχ, hev] with t hlt hrt ht
  rw [valueAt_binary, hlt, hrt, ht]

theorem add (hl : l.HasPartial s env dl) (hr : r.HasPartial s env dr)
    (hx : l.valueAt env = .finite x) (hy : r.valueAt env = .finite y) :
    (Expr.binary l .add r).HasPartial s env (dl + dr) :=
  binary hl hr hx hy fun _ _ hφ hχ _ _ => ⟨Eventually.of_forall fun _ => rfl, hφ.add hχ⟩

theorem sub (hl : l.HasPartial s env dl) (hr : r.HasPartial s env dr)
    (hx : l.valueAt env = .finite x) (hy : r.valueAt env = .finite y) :
    (Expr.binary l .sub r).HasPartial s env (dl - dr) :=
  binary hl hr hx hy fun _ _ hφ hχ _ _ => ⟨Eventually.of_forall fun _ => rfl, hφ.sub hχ⟩

theorem mul (hl : l.HasPartial s env dl) (hr : r.HasPartial s env dr)
    (hx : l.valueAt env = .finite x) (hy : r.valueAt env = .finite y) :
    (Expr.binary l .mul r).HasPartial s env (dl * y + x * dr) := by
  refine binary hl hr hx hy fun φ χ hφ hχ hx hy => ⟨Eventually.of_forall fun _ => rfl, ?_⟩
  rw [← hx, ← hy]
  exact hφ.mul hχ

theorem div (hl : l.HasPartial s env dl) (hr : r.HasPartial s env dr)
    (hx : l.valueAt env = .finite x) (hy : r.valueAt env = .finite y) (h : y ≠ 0) :
    (Expr.binary l .div r).HasPartial s env ((dl * y - x * dr) / y ^ 2) := by
  refine binary hl hr hx hy (ψ := fun u v => u / v) fun φ χ hφ hχ hx hy => ?_
  rw [← hy] at h
  refine ⟨?_, ?_⟩
  · filter_upwards [hχ.continuousAt.eventually_ne h] with t ht
    exact Exact.finite_div _ ht
  · rw [← hx, ← hy]
    exact hφ.div hχ h

/-- A power with a constant exponent. -/
theorem pow_const {c : ℝ} (hl : l.HasPartial s env dl) (hx : l.valueAt env = .finite x)
    (h : PowerSmooth x c) :
    (Expr.binary l .pow (.const (.finite c))).HasPartial s env (c * x ^ (c - 1) * dl) := by
  obtain ⟨φ, hφ, hd⟩ := hl
  have hat := eq_at hφ hx
  rw [← hat] at h ⊢
  refine ⟨fun t => φ t ^ c, ?_, ?_⟩
  · filter_upwards [hφ, hd.continuousAt.eventually h.eventually_of] with t ht hs
    rw [valueAt_binary, ht]
    exact Exact.pow_finite (pow_real hs.defined)
  · refine (hd.rpow_const h.ne_zero_or_one_le).congr_deriv ?_
    ring

/-- A power of a positive number, with any exponent. -/
theorem pow (hl : l.HasPartial s env dl) (hr : r.HasPartial s env dr)
    (hx : l.valueAt env = .finite x) (hy : r.valueAt env = .finite y) (h : 0 < x) :
    (Expr.binary l .pow r).HasPartial s env (x ^ y * (dr * Real.log x + y * dl / x)) := by
  refine binary hl hr hx hy (ψ := fun u v => u ^ v) fun φ χ hφ hχ hx hy => ?_
  rw [← hx] at h
  refine ⟨?_, ?_⟩
  · filter_upwards [hφ.continuousAt.eventually (eventually_gt_nhds h)] with t ht
    exact Exact.pow_finite (pow_real (.inl ht))
  · refine (hφ.rpow hχ h).congr_deriv ?_
    rw [hx] at h
    rw [hx, hy, Real.rpow_sub_one (ne_of_gt h)]
    ring

end HasPartial

/-! ## Derivatives -/

variable {env : Symbol → ℝ}

theorem valueAt_diffPow_const {base dBase : Expr (Exact ℝ)} (dExponent : Expr (Exact ℝ))
    {x c d : ℝ} (hb : base.valueAt env = .finite x) (hd : dBase.valueAt env = .finite d)
    (h : PowerSmooth x c) :
    (diffPow base (const (.finite c)) dBase dExponent).valueAt env =
      .finite (c * x ^ (c - 1) * d) := by
  have hexponent : (const (Exact.finite c - 1) : Expr (Exact ℝ)).valueAt env = .finite (c - 1) :=
    rfl
  exact valueAt_mul (valueAt_mul rfl (valueAt_pow hb hexponent (pow_real h.defined_sub_one))) hd

theorem valueAt_diffPow {base exponent dBase dExponent : Expr (Exact ℝ)} {x y dx dy : ℝ}
    (hc : exponent.isConst = false) (hb : base.valueAt env = .finite x)
    (he : exponent.valueAt env = .finite y) (hdb : dBase.valueAt env = .finite dx)
    (hde : dExponent.valueAt env = .finite dy) (h : 0 < x) :
    (diffPow base exponent dBase dExponent).valueAt env =
      .finite (x ^ y * (dy * Real.log x + y * dx / x)) := by
  have hpow : (binary base .pow exponent).valueAt env = .finite (x ^ y) := by
    rw [valueAt_binary, hb, he]
    exact Exact.pow_finite (pow_real (.inl h))
  have hln : (ofUnary .ln base).valueAt env = .finite (Real.log x) := valueAt_unary_smooth hb h
  have hsum := valueAt_add (valueAt_mul hde hln) (valueAt_div (valueAt_mul he hdb) hb (ne_of_gt h))
  cases exponent with
  | const v => cases hc
  | _ => exact valueAt_mul hpow hsum

/-- At a point where every part of an expression is defined and smooth, its derivative with respect
to a symbol is defined, and the value is the partial derivative of the expression there. -/
theorem exists_hasPartial (e : Expr (Exact ℝ)) (s : Symbol) (env : Symbol → ℝ)
    (h : e.Smooth env) :
    ∃ d, (e.diff s).valueAt env = .finite d ∧ e.HasPartial s env d := by
  induction e with
  | const v =>
    obtain ⟨x, rfl⟩ := h
    exact ⟨0, rfl, .const⟩
  | sym t =>
    refine ⟨if t = s then 1 else 0, ?_, .sym t⟩
    rw [diff, valueAt_const]
    split <;> rfl
  | unary op a ih =>
    obtain ⟨ha, x, hx, hs⟩ := h
    obtain ⟨d, hd, hp⟩ := ih ha
    refine ⟨op.slope x * d, ?_, hp.unary hx hs⟩
    rw [diff]
    split
    · next v hv =>
      split
      · next h0 =>
        -- The rule is skipped where the inner derivative is the constant zero.
        obtain rfl : v = .finite d := by rwa [hv] at hd
        obtain rfl : d = 0 := by simpa [Exact.zero_def] using h0
        rw [mul_zero, valueAt_const, Exact.zero_def]
      · exact valueAt_chainRule hx (hv ▸ hd) hs
    · exact valueAt_chainRule hx hd hs
  | binary l op r ihl ihr =>
    obtain ⟨hl, hr, x, y, hx, hy, hs⟩ := h
    obtain ⟨dl, hdl, hpl⟩ := ihl hl
    obtain ⟨dr, hdr, hpr⟩ := ihr hr
    cases op with
    | add => exact ⟨dl + dr, valueAt_add hdl hdr, hpl.add hpr hx hy⟩
    | sub => exact ⟨dl - dr, valueAt_sub hdl hdr, hpl.sub hpr hx hy⟩
    | mul =>
      exact ⟨dl * y + x * dr, valueAt_add (valueAt_mul hdl hy) (valueAt_mul hx hdr),
        hpl.mul hpr hx hy⟩
    | div =>
      have htwo : (const Scalar.two : Expr (Exact ℝ)).valueAt env = .finite 2 := Exact.two_def
      have hsquare := valueAt_pow hy htwo (pow_real_two y)
      have hvalue := valueAt_sub (valueAt_div hdl hy hs)
        (valueAt_div (valueAt_mul hx hdr) hsquare (pow_ne_zero 2 hs))
      refine ⟨_, hvalue, ?_⟩
      have heq : dl / y - x * dr / y ^ 2 = (dl * y - x * dr) / y ^ 2 := by
        have hne : y ≠ 0 := hs
        field_simp
      rw [heq]
      exact hpl.div hpr hx hy hs
    | pow =>
      cases hc : r.isConst with
      | true =>
        obtain ⟨v, rfl⟩ : ∃ v, r = const v := by
          cases r with
          | const v => exact ⟨v, rfl⟩
          | _ => cases hc
        obtain rfl : v = .finite y := hy
        exact ⟨_, valueAt_diffPow_const (const 0) hx hdl hs, hpl.pow_const hx hs⟩
      | false =>
        rw [hc] at hs
        have hpos : 0 < x := hs
        exact ⟨_, valueAt_diffPow hc hx hy hdl hdr hpos, hpl.pow hpr hx hy hpos⟩

/-- The derivative of `x ^ 2 / ln(x + 3)` at minus one. -/
theorem exists_hasPartial_quotient :
    let x : Symbol := ⟨"x", 0⟩
    let e : Expr (Exact ℝ) :=
      binary (binary (sym x) .pow (const (.finite 2))) .div
        (unary .ln (binary (sym x) .add (const (.finite 3))))
    e.Smooth (fun _ => -1) ∧
      ∃ d, (e.diff x).valueAt (fun _ => -1) = .finite d ∧ e.HasPartial x (fun _ => -1) d := by
  intro x e
  have hsquare : Elementary.pow (-1 : ℝ) 2 = some ((-1) ^ 2) := pow_real_two (-1)
  have hln : UnaryOp.SmoothAt .ln (-1 + 3) := by norm_num [UnaryOp.SmoothAt]
  have hsmooth : e.Smooth (fun _ => -1) := by
    refine ⟨⟨trivial, ⟨2, rfl⟩, -1, 2, rfl, rfl, .inr (.inr ⟨2, by simp, by simp⟩)⟩,
      ⟨⟨trivial, ⟨3, rfl⟩, -1, 3, rfl, rfl, trivial⟩, -1 + 3, rfl, hln⟩,
      (-1) ^ 2, Real.log (-1 + 3), Exact.pow_finite hsquare, UnaryOp.apply_finite hln, ?_⟩
    exact ne_of_gt (Real.log_pos (by norm_num))
  exact ⟨hsmooth, exists_hasPartial e x _ hsmooth⟩

end Expr

end Optima
