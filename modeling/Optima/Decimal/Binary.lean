import Optima.Decimal

/-!
From a positive binary number to decimal digits, in exact integer arithmetic.

A machine number is `mantissa · 2 ^ exponent`; the numbers that round to it fill an interval around
it that ends halfway to its neighbours.

* `shortest`: of the grids `10 ^ k`, from coarse to fine, the first one with a point in that
  interval, and of its points the nearest.
* `rounded`: the nearest number with a given count of digits, an exact half going to the even one.
-/

namespace Optima

/-- The positive number `mantissa · 2 ^ exponent`. `narrow` says that the neighbour below is only
half as far away as the one above. -/
structure Binary where
  mantissa : Nat
  exponent : Int
  narrow : Bool
  deriving DecidableEq, Repr

namespace Binary

/-- A bound on the power of ten of the leading digit, off by one or two at most. -/
def topPower (b : Binary) : Int := ((b.mantissa.log2 + 1 + b.exponent) * 30103) / 100000 + 1

/-- The scale on which quarters of the binary unit and steps of `10 ^ k` are whole: the size of
both. -/
def scale (b : Binary) (k : Int) : Nat × Nat :=
  let e := b.exponent - 2
  (Nat.pow 2 e.toNat * Nat.pow 10 (-k).toNat, Nat.pow 2 (-e).toNat * Nat.pow 10 k.toNat)

/-- The multiple of `10 ^ k` nearest to `b` among those that round to `b`, if there are any. -/
def onGrid? (tieToEven : Bool) (b : Binary) (k : Int) : Option Decimal :=
  let (quarter, step) := b.scale k
  let value := 4 * b.mantissa * quarter
  let low := (4 * b.mantissa - (if b.narrow then 1 else 2)) * quarter
  let high := (4 * b.mantissa + 2) * quarter
  let closed := b.mantissa % 2 = 0
  let down := value / step
  let up := down + 1
  let downFits := if closed then low ≤ down * step else low < down * step
  let upFits := if closed then up * step ≤ high else up * step < high
  let downGap := value - down * step
  let upGap := up * step - value
  if downFits ∧ upFits then
    if downGap < upGap ∨ (downGap = upGap ∧ tieToEven ∧ down % 2 = 0) then some ⟨down, k⟩
    else some ⟨up, k⟩
  else if downFits then some ⟨down, k⟩
  else if upFits then some ⟨up, k⟩
  else none

/-- How many grids are tried: seventeen digits tell all machine numbers apart. -/
def gridCount : Nat := 21

def shortest (tieToEven : Bool) (b : Binary) : Decimal :=
  (((List.range gridCount).findSome? fun (i : Nat) => b.onGrid? tieToEven (b.topPower - i)).getD
    ⟨0, 0⟩).normalize

/-- The quotient rounded to the nearest whole number, a half to the even one. -/
def roundDiv (num den : Nat) : Nat :=
  let q := num / den
  let r := num % den
  if 2 * r < den ∨ (2 * r = den ∧ q % 2 = 0) then q else q + 1

/-- The power of ten of the leading digit. -/
def leadingPower (b : Binary) : Int :=
  ((List.range 4).findSome? fun (i : Nat) =>
    let k := b.topPower - i
    let (quarter, step) := b.scale k
    if step ≤ 4 * b.mantissa * quarter then some k else none).getD b.topPower

/-- The nearest decimal with `figures` digits. -/
def rounded (figures : Nat) (b : Binary) : Decimal :=
  let k := b.leadingPower + 1 - figures
  let (quarter, step) := b.scale k
  let digits := roundDiv (4 * b.mantissa * quarter) step
  if digits = Nat.pow 10 figures then ⟨Nat.pow 10 (figures - 1), k + 1⟩ else ⟨digits, k⟩

theorem roundDiv_mul (n d : Nat) (hd : 0 < d) : roundDiv (n * d) d = n := by
  have h1 : n * d / d = n := Nat.mul_div_cancel n hd
  have h2 : n * d % d = 0 := Nat.mul_mod_left n d
  simp [roundDiv, h1, h2, hd]

end Binary

end Optima
