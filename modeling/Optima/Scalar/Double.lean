import Optima.Scalar
import Optima.Decimal.Binary

/-!
Machine numbers: the 64-bit doubles as scalars, and their decimal digits.
-/

namespace Optima.Double

/-- The nearest double. Far outside the range of doubles the answer needs no arithmetic. -/
def ofDecimal (digits : Nat) (exponent : Int) : Float :=
  let top := exponent + (Decimal.digitChars digits).length
  if digits = 0 then 0
  else if 400 < top then 1 / 0
  else if top < -400 then 0
  else OfScientific.ofScientific digits (decide (exponent < 0)) exponent.natAbs

instance : Scalar Float where
  zero := 0
  one := 1
  decidableLT := inferInstance
  decidableLE := inferInstance
  ofDecimal := ofDecimal
  infinity := 1 / 0
  nan := 0 / 0
  pi := 3.141592653589793
  euler := 2.718281828459045
  sqrt := Float.sqrt
  abs := Float.abs
  sin := Float.sin
  cos := Float.cos
  tan := Float.tan
  exp := Float.exp
  ln := Float.log
  pow := Float.pow

/-! ## Decimal digits -/

/-- The weight of the sign among the bits of a double. -/
def signBit : Nat := Nat.pow 2 63

/-- The weight of the bit above the fraction: the one in front of the point, which is not stored. -/
def hiddenBit : Nat := Nat.pow 2 52

/-- The parts of a double that is neither infinite nor undefined; the mantissa is zero only for the
two zeros. -/
def toBinary (v : Float) : Binary :=
  let bits : Nat := v.toBits.toNat % signBit
  let biased : Nat := bits / hiddenBit
  let fraction : Nat := bits % hiddenBit
  if biased = 0 then ⟨fraction, -1074, false⟩
  else ⟨fraction + hiddenBit, (biased : Int) - 1075, decide (fraction = 0 ∧ 1 < biased)⟩

def isNegative (v : Float) : Bool := decide (signBit ≤ v.toBits.toNat)

def toNumeral (digits : Binary → Decimal) (v : Float) : Numeral :=
  if v.isNaN then .undefined
  else if v.isFinite then
    let b := toBinary v
    .finite (isNegative v) (if b.mantissa = 0 then ⟨0, 0⟩ else digits b)
  else .infinite (isNegative v)

instance : Printable Float where
  shortest tieToEven := toNumeral (Binary.shortest tieToEven)
  rounded figures := toNumeral (Binary.rounded figures)

end Optima.Double
