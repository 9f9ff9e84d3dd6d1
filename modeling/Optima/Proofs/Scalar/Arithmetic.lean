import Optima.Proofs.Scalar.Order

/-!
What the arithmetic of scalars is assumed to do with infinite and undefined operands, and with
zeros.

* `Arithmetic`: a finite sum has finite terms, and a difference of numbers of which one is finite is
  a number.
* `ZeroLaws`: sums and differences of zeros are zeros, and so are products with a finite number and
  quotients by what is not zero; other products and quotients of a zero are undefined.
* `Growth`: a factor above one does not make a positive number smaller, and a difference with zero
  keeps the sign.
-/

namespace Optima

/-- How finite, infinite and undefined operands combine. -/
class Arithmetic (α : Type) [Scalar α] : Prop extends Ordered α where
  isFinite_zero : Scalar.isFinite (0 : α) = true
  isFinite_neg {a : α} : Scalar.isFinite a = true → Scalar.isFinite (-a) = true
  finite_of_add {a b : α} :
    Scalar.isFinite (a + b) = true → Scalar.isFinite a = true ∧ Scalar.isFinite b = true
  isNaN_sub {a b : α} : Scalar.isFinite a = true ∨ Scalar.isFinite b = true →
    Scalar.isNaN a = false → Scalar.isNaN b = false → Scalar.isNaN (a - b) = false

/-- How zeros of either sign and undefined operands combine. -/
class ZeroLaws (α : Type) [Scalar α] : Prop extends Arithmetic α where
  add_zero {a b : α} : (a == 0) = true → (b == 0) = true → (a + b == 0) = true
  sub_zero {a b : α} : (a == 0) = true → (b == 0) = true → (a - b == 0) = true
  zero_mul {a b : α} : (a == 0) = true → Scalar.isFinite b = true → (a * b == 0) = true
  mul_zero {a b : α} : Scalar.isFinite a = true → (b == 0) = true → (a * b == 0) = true
  zero_div {a b : α} :
    (a == 0) = true → (b == 0) = false → Scalar.isNaN b = false → (a / b == 0) = true
  isFinite_mul_one {a : α} : Scalar.isFinite a = true → Scalar.isFinite (a * 1) = true
  two_ne_zero : (Scalar.two == (0 : α)) = false
  two_ne_one : (Scalar.two == (1 : α)) = false
  isNaN_zero_mul {a b : α} :
    (a == 0) = true → Scalar.isFinite b = false → Scalar.isNaN (a * b) = true
  isNaN_zero_div {a b : α} : (a == 0) = true → (b == 0) = true → Scalar.isNaN (a / b) = true
  nan_add {a b : α} : Scalar.isNaN a = true ∨ Scalar.isNaN b = true → Scalar.isNaN (a + b) = true
  nan_sub {a b : α} : Scalar.isNaN a = true ∨ Scalar.isNaN b = true → Scalar.isNaN (a - b) = true

/-- How numbers grow: they do so under a factor above one, and none is beyond half of infinity. -/
class Growth (α : Type) [Scalar α] : Prop extends Arithmetic α where
  le_mul {a b : α} : 0 < a → 1 < b → a ≤ a * b
  sub_zero_nonneg {a : α} : 0 ≤ a → 0 ≤ a - 0
  zero_sub_nonpos {a : α} : 0 ≤ a → 0 - a ≤ 0
  zero_sub_zero : (0 : α) - 0 = 0
  not_half_infinity_lt (a : α) : ¬ Scalar.half * Scalar.infinity < a

namespace Arithmetic

variable {α : Type} [Scalar α] [Arithmetic α] {a : α}

theorem isNaN_of_isFinite (h : Scalar.isFinite a = true) : Scalar.isNaN a = false := by
  simp only [Scalar.isFinite, Bool.and_eq_true, decide_eq_true_eq] at h
  exact (Ordered.defined_of_lt h.1).2

theorem isNaN_zero : Scalar.isNaN (0 : α) = false := isNaN_of_isFinite isFinite_zero

theorem isFinite_of_beq_zero (h : (a == 0) = true) : Scalar.isFinite a = true := by
  obtain ⟨hle, hge⟩ := Ordered.beq_iff.1 h
  have hzero := isFinite_zero (α := α)
  simp only [Scalar.isFinite, Bool.and_eq_true, decide_eq_true_eq] at hzero ⊢
  exact ⟨Ordered.lt_of_lt_of_le hzero.1 hge, Ordered.lt_of_le_of_lt hle hzero.2⟩

theorem beq_eq_false_of_isNaN {b : α} (h : Scalar.isNaN a = true) : (a == b) = false := by
  rw [← Bool.not_eq_true]
  intro hab
  rw [(Ordered.defined_of_le (Ordered.beq_iff.1 hab).1).1] at h
  cases h

theorem zero_beq_zero : ((0 : α) == 0) = true :=
  Ordered.beq_iff.2 ⟨Ordered.le_refl isNaN_zero, Ordered.le_refl isNaN_zero⟩

end Arithmetic

end Optima
