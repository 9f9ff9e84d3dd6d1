/-!
Numbers an optimisation is computed with.

Everything above this module is written for an arbitrary `Scalar`, so that one definition can be
run on machine numbers and read over exact ones.

* `max_of_isNaN_right`, `min_of_isNaN_right`: an operand that is not a number is ignored.
* `max_eq_or`, `min_eq_or`: the larger and the smaller of two are one of the two.
* `sum_nil`, `sum_append_singleton`: sums run from the left and start at negative zero.
-/

namespace Optima

/-- The operations of a number system with infinities and an undefined value. -/
class Scalar (α : Type) extends Zero α, One α, Add α, Sub α, Mul α, Div α, Neg α,
    LT α, LE α, BEq α where
  decidableLT : DecidableLT α
  decidableLE : DecidableLE α
  /-- The scalar nearest to `digits · 10 ^ exponent`. -/
  ofDecimal : (digits : Nat) → (exponent : Int) → α
  infinity : α
  /-- The undefined value, which differs from itself. -/
  nan : α
  pi : α
  /-- The base of the natural logarithm. -/
  euler : α
  sqrt : α → α
  abs : α → α
  sin : α → α
  cos : α → α
  tan : α → α
  exp : α → α
  ln : α → α
  pow : α → α → α

instance Scalar.instDecidableLT {α : Type} [Scalar α] : DecidableLT α := Scalar.decidableLT

instance Scalar.instDecidableLE {α : Type} [Scalar α] : DecidableLE α := Scalar.decidableLE

namespace Scalar

variable {α : Type} [Scalar α]

def isNaN (a : α) : Bool := !(a == a)

def isFinite (a : α) : Bool := decide (-infinity < a) && decide (a < infinity)

/-! ## Order -/

/-- The larger operand; the second of two equal ones, and the other one if one is not a number. -/
protected def max (a b : α) : α := if b < a ∨ isNaN b = true then a else b

/-- The smaller operand; the second of two equal ones, and the other one if one is not a number. -/
protected def min (a b : α) : α := if a < b ∨ isNaN b = true then a else b

/-- The point of `[lower, upper]` nearest to `a`; the undefined value stays undefined. -/
def clamp (lower upper a : α) : α :=
  let raised := if a < lower then lower else a
  if upper < raised then upper else raised

def sign (a : α) : α := if 0 < a then 1 else if a < 0 then -1 else 0

theorem max_of_isNaN_right {a b : α} (h : isNaN b = true) : Scalar.max a b = a := by
  simp [Scalar.max, h]

theorem min_of_isNaN_right {a b : α} (h : isNaN b = true) : Scalar.min a b = a := by
  simp [Scalar.min, h]

theorem max_eq_or (a b : α) : Scalar.max a b = a ∨ Scalar.max a b = b := by
  unfold Scalar.max; split <;> simp

theorem min_eq_or (a b : α) : Scalar.min a b = a ∨ Scalar.min a b = b := by
  unfold Scalar.min; split <;> simp

/-! ## Sums and powers -/

/-- Sums run from the left and start at negative zero, which is neutral on the left. -/
def sum (as : List α) : α := as.foldl (· + ·) (-0)

def square (a : α) : α := a * a

def two : α := ofDecimal 2 0

def half : α := ofDecimal 5 (-1)

/-- The scalar nearest to an integer. -/
def ofInt (n : Int) : α := if n < 0 then -ofDecimal n.natAbs 0 else ofDecimal n.natAbs 0

theorem sum_nil : sum ([] : List α) = -0 := rfl

theorem sum_append_singleton (as : List α) (a : α) : sum (as ++ [a]) = sum as + a := by
  simp [sum]

end Scalar

end Optima
