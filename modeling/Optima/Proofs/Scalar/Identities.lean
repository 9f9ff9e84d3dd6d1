import Optima.Expr
import Optima.Proofs.Scalar.Arithmetic

/-!
Which identities of arithmetic scalars are assumed to satisfy as computed, and up to what.

* `Scalar.Agrees`: two scalars are equal, whatever the sign of a zero, or both undefined;
  `agrees_trans`, `agrees_symm`.
* `Summation`: what may be added without a change, and that sums of agreeing terms agree.
* `Identities`: zero and one as operands of the other operations, and that an operation with a finite
  result does not tell the two zeros apart.
* `Functions`: the same of the elementary functions, and powers with the exponents zero and one.
* `beq_unary`, `beq_binary`: an operation of an expression with a finite value has an equal value at
  equal operands.
-/

namespace Optima

variable {α : Type} [Scalar α]

/-! ## Agreement -/

/-- Equal as scalars, so that the two zeros agree, or both undefined. -/
def Scalar.Agrees (a b : α) : Prop :=
  (a == b) = true ∨ Scalar.isNaN a = true ∧ Scalar.isNaN b = true

open Scalar (Agrees)

theorem agrees_of_beq {a b : α} (h : (a == b) = true) : Agrees a b := .inl h

theorem agrees_refl (a : α) : Agrees a a := by
  by_cases h : (a == a) = true
  · exact .inl h
  · have hn : Scalar.isNaN a = true := by simp [Scalar.isNaN, h]
    exact .inr ⟨hn, hn⟩

section

variable [Ordered α] {a b c : α}

theorem beq_symm (h : (a == b) = true) : (b == a) = true := by
  rw [Ordered.beq_iff] at h ⊢
  exact ⟨h.2, h.1⟩

theorem beq_trans (h : (a == b) = true) (h' : (b == c) = true) : (a == c) = true := by
  rw [Ordered.beq_iff] at h h' ⊢
  exact ⟨Ordered.le_trans h.1 h'.1, Ordered.le_trans h'.2 h.2⟩

theorem defined_of_beq (h : (a == b) = true) :
    Scalar.isNaN a = false ∧ Scalar.isNaN b = false :=
  Ordered.defined_of_le (Ordered.beq_iff.1 h).1

/-- A scalar that equals a finite one is finite. -/
theorem isFinite_of_beq (h : (a == b) = true) (hb : Scalar.isFinite b = true) :
    Scalar.isFinite a = true := by
  obtain ⟨hle, hge⟩ := Ordered.beq_iff.1 h
  simp only [Scalar.isFinite, Bool.and_eq_true, decide_eq_true_eq] at hb ⊢
  exact ⟨Ordered.lt_of_lt_of_le hb.1 hge, Ordered.lt_of_le_of_lt hle hb.2⟩

theorem agrees_symm (h : Agrees a b) : Agrees b a := h.imp beq_symm And.symm

theorem agrees_trans (h : Agrees a b) (h' : Agrees b c) : Agrees a c := by
  rcases h with h | ⟨ha, hb⟩
  · rcases h' with h' | ⟨hb, -⟩
    · exact .inl (beq_trans h h')
    · rw [(defined_of_beq h).2] at hb
      cases hb
  · rcases h' with h' | ⟨-, hc⟩
    · rw [(defined_of_beq h').1] at hb
      cases hb
    · exact .inr ⟨ha, hc⟩

omit [Ordered α] in
/-- Two scalars that agree are equal if one of them is defined. -/
theorem beq_of_agrees (h : Agrees a b) (hb : Scalar.isNaN b = false) : (a == b) = true :=
  h.resolve_right fun hn => by
    rw [hn.2] at hb
    cases hb

end

/-! ## What is assumed -/

/-- A zero of either sign adds nothing, and sums of agreeing terms agree. -/
class Summation (α : Type) [Scalar α] : Prop extends Ordered α where
  beq_neg_zero : (-(0 : α) == 0) = true
  agrees_zero_add {z a : α} : (z == 0) = true → Agrees (z + a) a
  agrees_add_zero {a z : α} : (z == 0) = true → Agrees (a + z) a
  agrees_add {a a' b b' : α} : Agrees a a' → Agrees b b' → Agrees (a + b) (a' + b')

/-- The identities of zero and one for finite operands, up to the sign of a zero. An operation with
a finite result does not tell the zeros apart, beyond the sign of a zero result. -/
class Identities (α : Type) [Scalar α] : Prop extends ZeroLaws α, Summation α where
  beq_neg_neg {a : α} : Scalar.isFinite a = true → (- -a == a) = true
  beq_zero_sub {a : α} : Scalar.isFinite a = true → (0 - a == -a) = true
  beq_sub_zero {a : α} : Scalar.isFinite a = true → (a - 0 == a) = true
  beq_one_mul {a : α} : Scalar.isFinite a = true → (1 * a == a) = true
  beq_mul_one {a : α} : Scalar.isFinite a = true → (a * 1 == a) = true
  beq_div_one {a : α} : Scalar.isFinite a = true → (a / 1 == a) = true
  beq_neg {a a' : α} : (a == a') = true → Scalar.isFinite (-a) = true → (-a == -a') = true
  beq_abs {a a' : α} : (a == a') = true → Scalar.isFinite (Scalar.abs a) = true →
    (Scalar.abs a == Scalar.abs a') = true
  beq_sqrt {a a' : α} : (a == a') = true → Scalar.isFinite (Scalar.sqrt a) = true →
    (Scalar.sqrt a == Scalar.sqrt a') = true
  beq_sub {a a' b b' : α} : (a == a') = true → (b == b') = true →
    Scalar.isFinite (a - b) = true → (a - b == a' - b') = true
  beq_mul {a a' b b' : α} : (a == a') = true → (b == b') = true →
    Scalar.isFinite (a * b) = true → (a * b == a' * b') = true
  beq_div {a a' b b' : α} : (a == a') = true → (b == b') = true →
    Scalar.isFinite (a / b) = true → (a / b == a' / b') = true

/-- What the elementary functions do with zeros, and powers with the exponents zero and one. -/
class Functions (α : Type) [Scalar α] : Prop extends Identities α where
  beq_pow_zero {a : α} : Scalar.isFinite a = true → (Scalar.pow a 0 == 1) = true
  beq_pow_one {a : α} : Scalar.isFinite a = true → (Scalar.pow a 1 == a) = true
  beq_sin {a a' : α} : (a == a') = true → Scalar.isFinite (Scalar.sin a) = true →
    (Scalar.sin a == Scalar.sin a') = true
  beq_cos {a a' : α} : (a == a') = true → Scalar.isFinite (Scalar.cos a) = true →
    (Scalar.cos a == Scalar.cos a') = true
  beq_tan {a a' : α} : (a == a') = true → Scalar.isFinite (Scalar.tan a) = true →
    (Scalar.tan a == Scalar.tan a') = true
  beq_exp {a a' : α} : (a == a') = true → Scalar.isFinite (Scalar.exp a) = true →
    (Scalar.exp a == Scalar.exp a') = true
  beq_ln {a a' : α} : (a == a') = true → Scalar.isFinite (Scalar.ln a) = true →
    (Scalar.ln a == Scalar.ln a') = true
  beq_pow {a a' b b' : α} : (a == a') = true → (b == b') = true →
    Scalar.isFinite (Scalar.pow a b) = true → (Scalar.pow a b == Scalar.pow a' b') = true

/-! ## Operations with equal operands -/

variable {a a' b b' : α}

theorem beq_self_of_isFinite [Arithmetic α] (h : Scalar.isFinite a = true) : (a == a) = true := by
  have hn := Arithmetic.isNaN_of_isFinite h
  simpa [Scalar.isNaN] using hn

theorem sign_eq_of_beq [Ordered α] (h : (a == a') = true) : Scalar.sign a = Scalar.sign a' := by
  obtain ⟨hle, hge⟩ := Ordered.beq_iff.1 h
  have hpos : 0 < a ↔ 0 < a' :=
    ⟨fun h0 => Ordered.lt_of_lt_of_le h0 hle, fun h0 => Ordered.lt_of_lt_of_le h0 hge⟩
  have hneg : a < 0 ↔ a' < 0 :=
    ⟨fun h0 => Ordered.lt_of_le_of_lt hge h0, fun h0 => Ordered.lt_of_le_of_lt hle h0⟩
  simp only [Scalar.sign, hpos, hneg]

theorem beq_add [Identities α] (h : (a == a') = true) (h' : (b == b') = true)
    (hf : Scalar.isFinite (a + b) = true) : (a + b == a' + b') = true := by
  have hagree : Agrees (a' + b') (a + b) :=
    agrees_symm (Summation.agrees_add (agrees_of_beq h) (agrees_of_beq h'))
  exact beq_symm (beq_of_agrees hagree (Arithmetic.isNaN_of_isFinite hf))

variable [Functions α]

/-- A function with a finite value has an equal value at an equal argument. -/
theorem beq_unary (op : UnaryOp) (h : (a == a') = true)
    (hf : Scalar.isFinite (op.apply a) = true) : (op.apply a == op.apply a') = true := by
  cases op with
  | neg => exact Identities.beq_neg h hf
  | sin => exact Functions.beq_sin h hf
  | cos => exact Functions.beq_cos h hf
  | tan => exact Functions.beq_tan h hf
  | exp => exact Functions.beq_exp h hf
  | ln => exact Functions.beq_ln h hf
  | sqrt => exact Identities.beq_sqrt h hf
  | abs => exact Identities.beq_abs h hf
  | sign =>
    have hself : (Scalar.sign a == Scalar.sign a) = true := beq_self_of_isFinite hf
    rw [sign_eq_of_beq h] at hself
    rwa [UnaryOp.apply, UnaryOp.apply, sign_eq_of_beq h]

/-- An operation with a finite value has an equal value at equal operands. -/
theorem beq_binary (op : BinaryOp) (h : (a == a') = true) (h' : (b == b') = true)
    (hf : Scalar.isFinite (op.apply a b) = true) : (op.apply a b == op.apply a' b') = true := by
  cases op with
  | add => exact beq_add h h' hf
  | sub => exact Identities.beq_sub h h' hf
  | mul => exact Identities.beq_mul h h' hf
  | div => exact Identities.beq_div h h' hf
  | pow => exact Functions.beq_pow h h' hf

end Optima
