import Optima.Proofs.Expr.Compiled
import Optima.Proofs.Expr.Folded
import Optima.Proofs.Scalar.Double

/-!
Derivatives along symbols that an expression does not mention, as computed.

A derivative of such a kind is put together from zeros. Where a zero meets a constant operand, the
folding constructors do not drop it but compute with it, and a zero that is divided by zero or
multiplied by an infinity is undefined.

* `constant_diff_of_independent`: the derivative is the constant zero if no divisor is a constant
  that is zero or has a zero as its square, and no base of a power is a constant without a logarithm.
* `undefined_diff_quotient`, `undefined_diff_power`: each such constant spoils a derivative.
-/

namespace Optima.Expr

/-- The constants that stand as a divisor. -/
def divisors {α : Type} : Expr α → List α
  | const _ => []
  | sym _ => []
  | unary _ a => a.divisors
  | binary l op r =>
    (if op = .div then r.constant?.toList else []) ++ (l.divisors ++ r.divisors)

variable {α : Type} [Scalar α]

/-- Zero divided by the constant, and by its square, is zero. -/
structure Divisor (c : α) : Prop where
  ne_zero : (c == 0) = false
  square_ne_zero : (Scalar.pow c Scalar.two == 0) = false
  square_defined : Scalar.isNaN (Scalar.pow c Scalar.two) = false

/-- Zero divided by the constant, and times its logarithm, is zero. -/
structure Base (b : α) : Prop where
  ne_zero : (b == 0) = false
  ln_finite : Scalar.isFinite (Scalar.ln b) = true

/-- The expression is a constant that equals zero, of either sign. -/
def IsZero (e : Expr α) : Prop := ∃ z, e = const z ∧ (z == 0) = true

variable {a b : Expr α}

/-! ## Zeros among operands -/

/-- A logarithm is a constant only if its argument is. -/
theorem eq_const_of_ln {v : α} (h : ofUnary .ln a = const v) :
    ∃ c, a = const c ∧ v = Scalar.ln c := by
  cases a with
  | const c =>
    cases h
    exact ⟨c, rfl, rfl⟩
  | sym t => cases h
  | unary op arg =>
    rw [ofUnary, if_neg (by simp)] at h
    cases h
  | binary l op r => cases h

variable [ZeroLaws α]

theorem isZero_zero : IsZero (const 0 : Expr α) := ⟨0, rfl, Arithmetic.zero_beq_zero⟩

theorem isZero_add (ha : IsZero a) (hb : IsZero b) : IsZero (a + b) := by
  obtain ⟨x, rfl, hx⟩ := ha
  obtain ⟨y, rfl, hy⟩ := hb
  exact ⟨x + y, rfl, ZeroLaws.add_zero hx hy⟩

theorem isZero_sub (ha : IsZero a) (hb : IsZero b) : IsZero (a - b) := by
  obtain ⟨x, rfl, hx⟩ := ha
  obtain ⟨y, rfl, hy⟩ := hb
  exact ⟨x - y, rfl, ZeroLaws.sub_zero hx hy⟩

theorem isZero_mul_left (ha : IsZero a) (hb : ∀ v, b = const v → Scalar.isFinite v = true) :
    IsZero (a * b) := by
  obtain ⟨z, rfl, hz⟩ := ha
  rcases ofBinary_cases (const z) .mul b with ⟨v, w, hv, rfl, h⟩ | ⟨v, hv, -, h⟩ | ⟨w, hc, -, -⟩ |
    ⟨hc, -, -⟩
  · cases hv
    exact ⟨z * w, h, ZeroLaws.zero_mul hz (hb w rfl)⟩
  · cases hv
    rw [mul_def, h, fromLeft?, if_pos hz]
    exact isZero_zero
  · cases hc
  · cases hc

theorem isZero_mul_right (ha : ∀ v, a = const v → Scalar.isFinite v = true) (hb : IsZero b) :
    IsZero (a * b) := by
  obtain ⟨z, rfl, hz⟩ := hb
  rcases ofBinary_cases a .mul (const z) with ⟨v, w, rfl, hw, h⟩ | ⟨v, rfl, hc, -⟩ | ⟨w, -, hw, h⟩ |
    ⟨-, hc, -⟩
  · cases hw
    exact ⟨v * z, h, ZeroLaws.mul_zero (ha v rfl) hz⟩
  · cases hc
  · cases hw
    rw [mul_def, h, fromRight?, if_pos hz]
    exact isZero_zero
  · cases hc

theorem isZero_div (ha : IsZero a)
    (hb : ∀ v, b = const v → (v == 0) = false ∧ Scalar.isNaN v = false) : IsZero (a / b) := by
  obtain ⟨z, rfl, hz⟩ := ha
  rcases ofBinary_cases (const z) .div b with ⟨v, w, hv, rfl, h⟩ | ⟨v, hv, -, h⟩ | ⟨w, hc, -, -⟩ |
    ⟨hc, -, -⟩
  · cases hv
    obtain ⟨hne, hdefined⟩ := hb w rfl
    exact ⟨z / w, h, ZeroLaws.zero_div hz hne hdefined⟩
  · cases hv
    rw [div_def, h, fromLeft?, if_pos hz]
    exact isZero_zero
  · cases hc
  · cases hc

/-- A square is a constant only if its base is. -/
theorem eq_const_of_square {v : α} (h : a.pow (const Scalar.two) = const v) :
    ∃ c, a = const c ∧ v = Scalar.pow c Scalar.two := by
  rcases ofBinary_cases a .pow (const Scalar.two) with ⟨c, w, rfl, hw, h'⟩ | ⟨c, -, hc, -⟩ |
    ⟨w, -, hw, h'⟩ | ⟨-, hc, -⟩
  · cases hw
    rw [pow, h'] at h
    cases h
    exact ⟨c, rfl, rfl⟩
  · cases hc
  · cases hw
    rw [pow, h', fromRight?, if_neg (by simp [ZeroLaws.two_ne_zero]),
      if_neg (by simp [ZeroLaws.two_ne_one])] at h
    cases h
  · cases hc

/-- The factor that a constant exponent brings along is finite if it is a constant. -/
theorem isFinite_of_scaled_power {c k v : α} (ha : a.isConst = false)
    (hfin : Scalar.isFinite c = true) (hc : foldsRight .pow c = false)
    (h : const c * a.pow (const k) = const v) : Scalar.isFinite v = true := by
  obtain ⟨hzero, hone⟩ := Bool.or_eq_false_iff.1 hc
  have hscaled {e : Expr α} (he : e.isConst = false) : const c * e ≠ const v := by
    rcases ofBinary_cases (const c) .mul e with ⟨v, w, -, rfl, -⟩ | ⟨v, hv, -, h'⟩ |
      ⟨w, hw, -, -⟩ | ⟨hw, -, -⟩
    · cases he
    · cases hv
      rw [mul_def, h', fromLeft?, hzero, hone]
      exact ne_const_of_isConst rfl v
    · cases hw
    · cases hw
  rcases ofBinary_cases a .pow (const k) with ⟨v, w, rfl, -, -⟩ | ⟨v, rfl, -, -⟩ |
    ⟨w, -, hw, h'⟩ | ⟨-, hw, -⟩
  · cases ha
  · cases ha
  · cases hw
    rw [pow, h', fromRight?] at h
    split at h
    · cases h
      exact ZeroLaws.isFinite_mul_one hfin
    · split at h
      · exact absurd h (hscaled ha)
      · exact absurd h (hscaled rfl)
  · cases hw

/-! ## Derivatives -/

theorem isZero_diffPow {base exponent dBase dExponent : Expr α}
    (h : (binary base .pow exponent).Folded)
    (hfin : ∀ v, exponent = const v → Scalar.isFinite v = true)
    (hbase : ∀ v, base = const v → Scalar.isFinite v = true ∧ Base v)
    (hb : IsZero dBase) (he : IsZero dExponent) :
    IsZero (diffPow base exponent dBase dExponent) := by
  obtain ⟨-, -, hconst, -, hright⟩ := h
  unfold diffPow
  split
  · next c =>
    have hnc : base.isConst = false :=
      Bool.eq_false_iff.2 fun hbc => hconst ⟨hbc, rfl⟩
    exact isZero_mul_right (fun v hv =>
      isFinite_of_scaled_power hnc (hfin c rfl) (hright c rfl) hv) hb
  · next hne =>
    refine isZero_mul_right (fun v hv => nomatch hv) (isZero_add ?_ ?_)
    · refine isZero_mul_left he fun v hv => ?_
      obtain ⟨c, hc, rfl⟩ := eq_const_of_ln hv
      exact (hbase c hc).2.ln_finite
    · refine isZero_div (isZero_mul_right (fun v hv => absurd hv (hne v)) hb) fun v hv => ?_
      obtain ⟨hv, hbv⟩ := hbase v hv
      exact ⟨hbv.ne_zero, Arithmetic.isNaN_of_isFinite hv⟩

theorem isZero_diff {s : Symbol} {e : Expr α} (hf : e.Folded)
    (hc : ∀ v ∈ e.constants, Scalar.isFinite v = true) (hd : ∀ v ∈ e.divisors, Divisor v)
    (hb : ∀ v ∈ e.powerBases, Base v) (hs : e.dependsOn s = false) : IsZero (e.diff s) := by
  induction e with
  | const v => exact isZero_zero
  | sym t =>
    have hne : t ≠ s := by simpa [dependsOn] using hs
    rw [diff, if_neg hne]
    exact isZero_zero
  | unary op a ih =>
    obtain ⟨z, hz, hzero⟩ := ih hf.1 hc hd hb hs
    simp only [diff, hz, hzero, if_true]
    exact isZero_zero
  | binary l op r ihl ihr =>
    obtain ⟨hsl, hsr⟩ := Bool.or_eq_false_iff.1 hs
    simp only [constants, divisors, powerBases, List.mem_append, or_imp, forall_and] at hc hd hb
    have hl := ihl hf.1 hc.1 hd.2.1 hb.2.1 hsl
    have hr := ihr hf.2.1 hc.2 hd.2.2 hb.2.2 hsr
    have hlc : ∀ v, l = const v → Scalar.isFinite v = true := by
      rintro v rfl
      exact hc.1 v (by simp [constants])
    have hrc : ∀ v, r = const v → Scalar.isFinite v = true := by
      rintro v rfl
      exact hc.2 v (by simp [constants])
    cases op with
    | add => exact isZero_add hl hr
    | sub => exact isZero_sub hl hr
    | mul => exact isZero_add (isZero_mul_left hl hrc) (isZero_mul_right hlc hr)
    | div =>
      have hdiv : ∀ v, r = const v → Divisor v := by
        rintro v rfl
        exact hd.1 v (by simp [constant?])
      refine isZero_sub (isZero_div hl fun v hv => ?_)
        (isZero_div (isZero_mul_right hlc hr) fun v hv => ?_)
      · exact ⟨(hdiv v hv).ne_zero, Arithmetic.isNaN_of_isFinite (hrc v hv)⟩
      · obtain ⟨c, hc, rfl⟩ := eq_const_of_square hv
        exact ⟨(hdiv c hc).square_ne_zero, (hdiv c hc).square_defined⟩
    | pow =>
      refine isZero_diffPow hf hrc (fun v hv => ⟨hlc v hv, ?_⟩) hl hr
      subst hv
      exact hb.1 v (by simp [constant?])

/-- The derivative of a built expression along a symbol that does not occur in it is the constant
zero, so that an entry of a gradient for such a variable is zero at every point. -/
theorem constant_diff_of_independent {s : Symbol} {e : Expr α} (h : Built e)
    (hc : ∀ v ∈ e.constants, Scalar.isFinite v = true) (hd : ∀ v ∈ e.divisors, Divisor v)
    (hb : ∀ v ∈ e.powerBases, Base v) (hs : e.dependsOn s = false) :
    ∃ z, e.diff s = const z ∧ (z == 0) = true ∧ Scalar.isFinite z = true ∧
      ∀ (inputs : List Symbol) (point : List α), point.length = inputs.length →
        evaluate inputs (e.diff s) point = .ok z := by
  obtain ⟨z, hz, hzero⟩ := isZero_diff h.folded hc hd hb hs
  refine ⟨z, hz, hzero, Arithmetic.isFinite_of_beq_zero hzero, fun inputs point hp => ?_⟩
  have hcompile : Function.compile inputs (const z) = .ok ⟨inputs, .const z⟩ := rfl
  rw [hz, evaluate_of_compile hcompile, call_of_compile hcompile hp]
  rfl

/-- The quotient of two variables and a multiple of a sine, along a third variable. -/
def ripple : Expr Float :=
  .binary (.binary (.sym ⟨"x", 0⟩) .div (.sym ⟨"y", 1⟩)) .add
    (.binary (.unary .sin (.sym ⟨"x", 0⟩)) .mul (.const 4))

theorem built_ripple : Built ripple := by
  have hx : Built (sym ⟨"x", 0⟩ : Expr Float) := .sym _
  have hy : Built (sym ⟨"y", 1⟩ : Expr Float) := .sym _
  have hfour : Built (const (4 : Float)) := .const 4 (by decide +kernel)
  exact .binary .add (.binary .div hx hy) (.binary .mul (.unary .sin hx) hfour)

theorem constant_diff_of_independent_ripple :
    ∃ z, ripple.diff ⟨"z", 2⟩ = const z ∧ (z == 0) = true ∧ Scalar.isFinite z = true ∧
      ∀ (inputs : List Symbol) (point : List Float), point.length = inputs.length →
        evaluate inputs (ripple.diff ⟨"z", 2⟩) point = .ok z := by
  have hc : ∀ v ∈ ripple.constants, Scalar.isFinite v = true :=
    List.forall_mem_singleton.2 (by decide +kernel)
  exact constant_diff_of_independent built_ripple hc nofun nofun (by decide)

/-! ## Constants that spoil a derivative -/

theorem sym_mul_zero (t : Symbol) : (sym t : Expr α) * const 0 = const 0 := by
  change (fromRight? (sym t) .mul (0 : α)).getD _ = _
  rw [fromRight?, if_pos Arithmetic.zero_beq_zero]
  rfl

/-- A quotient by such a constant has an undefined derivative along a symbol that it does not
mention. -/
theorem undefined_diff_quotient {s t : Symbol} (hne : t ≠ s) {c : α}
    (hc : (c == 0) = true ∨ (Scalar.pow c Scalar.two == 0) = true) :
    ∃ z, (binary (sym t) .div (const c)).diff s = const z ∧ Scalar.isNaN z = true := by
  refine ⟨0 / c - 0 / Scalar.pow c Scalar.two, ?_, ?_⟩
  · rw [diff, diff, diff, if_neg hne, sym_mul_zero]
    rfl
  · refine ZeroLaws.nan_sub (hc.imp ?_ ?_)
    · exact ZeroLaws.isNaN_zero_div Arithmetic.zero_beq_zero
    · exact ZeroLaws.isNaN_zero_div Arithmetic.zero_beq_zero

/-- A power of such a constant has a derivative along a symbol that it does not mention that is
undefined everywhere. -/
theorem undefined_diff_power {s t : Symbol} (hne : t ≠ s) {b : α}
    (hb : (b == 0) = true ∨ Scalar.isFinite (Scalar.ln b) = false) :
    ∃ z, (binary (const b) .pow (sym t)).diff s =
      binary (binary (const b) .pow (sym t)) .mul (const z) ∧ Scalar.isNaN z = true := by
  have hnan : Scalar.isNaN (0 * Scalar.ln b + 0 / b) = true := by
    refine ZeroLaws.nan_add (hb.symm.imp ?_ ?_)
    · exact ZeroLaws.isNaN_zero_mul Arithmetic.zero_beq_zero
    · exact ZeroLaws.isNaN_zero_div Arithmetic.zero_beq_zero
  refine ⟨0 * Scalar.ln b + 0 / b, ?_, hnan⟩
  simp only [diff, if_neg hne]
  change binary (const b) .pow (sym t) *
    (const (0 * Scalar.ln b) + sym t * const 0 / const b) = _
  rw [sym_mul_zero]
  change (fromRight? _ .mul (0 * Scalar.ln b + 0 / b)).getD _ = _
  rw [fromRight?, Arithmetic.beq_eq_false_of_isNaN hnan, Arithmetic.beq_eq_false_of_isNaN hnan]
  rfl

/-- Without the conditions on divisors and bases the derivative need not be zero: a quotient by
zero is enough. -/
theorem not_constant_diff_of_independent :
    ¬ ∀ (e : Expr Float) (s : Symbol), Built e →
      (∀ v ∈ e.constants, Scalar.isFinite v = true) → e.dependsOn s = false →
        ∃ z, e.diff s = const z ∧ (z == 0) = true := by
  intro h
  have hbuilt : Built (binary (sym ⟨"x", 0⟩) .div (const (0 : Float))) :=
    .binary .div (.sym ⟨"x", 0⟩) (.const 0 Arithmetic.isFinite_zero)
  have hne : (⟨"x", 0⟩ : Symbol) ≠ ⟨"y", 1⟩ := by decide
  obtain ⟨z, hz, hz₀⟩ := h _ ⟨"y", 1⟩ hbuilt
    (List.forall_mem_singleton.2 Arithmetic.isFinite_zero) (by decide)
  have hzero : ((0 : Float) == 0) = true := Arithmetic.zero_beq_zero
  obtain ⟨w, hw, hnan⟩ := undefined_diff_quotient hne (.inl hzero)
  rw [hw] at hz
  cases hz
  rw [Arithmetic.beq_eq_false_of_isNaN hnan] at hz₀
  cases hz₀

end Optima.Expr
