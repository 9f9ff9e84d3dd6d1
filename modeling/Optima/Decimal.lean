/-!
Decimal numbers: an integer times a power of ten, and how such a number is written.

* `normalize_zero`: the normal form of zero has exponent zero.
* `positional_of_nonneg`: a whole number is its digits followed by its zeros.
-/

namespace Optima

/-- The number `digits · 10 ^ exponent`. -/
structure Decimal where
  digits : Nat
  exponent : Int
  deriving DecidableEq, Repr

namespace Decimal

/-- Moves the trailing zeros of `digits` into the exponent. -/
def stripZeros (digits : Nat) (exponent : Int) : Decimal :=
  if h : 0 < digits ∧ digits % 10 = 0 then stripZeros (digits / 10) (exponent + 1)
  else ⟨digits, exponent⟩
termination_by digits
decreasing_by omega

/-- The same number with the fewest digits. -/
def normalize (d : Decimal) : Decimal :=
  if d.digits = 0 then ⟨0, 0⟩ else stripZeros d.digits d.exponent

theorem normalize_zero (e : Int) : normalize ⟨0, e⟩ = ⟨0, 0⟩ := rfl

/-! ## Written forms -/

/-- The decimal digits of a natural number, most significant first. -/
def digitChars (n : Nat) : List Char := Nat.toDigits 10 n

/-- An integer with a minus sign where one is due. -/
def signed (n : Int) : List Char :=
  if n < 0 then '-' :: digitChars n.natAbs else digitChars n.natAbs

/-- Digits with the point in its place and no exponent: `1200`, `12.5`, `0.0125`. -/
def positional (d : Decimal) : List Char :=
  let ds := digitChars d.digits
  let places := (-d.exponent).toNat
  if 0 ≤ d.exponent then ds ++ List.replicate d.exponent.toNat '0'
  else if places < ds.length then
    ds.take (ds.length - places) ++ '.' :: ds.drop (ds.length - places)
  else '0' :: '.' :: List.replicate (places - ds.length) '0' ++ ds

/-- The power of ten of the leading digit. -/
def magnitude (d : Decimal) : Int := d.exponent + (digitChars d.digits).length - 1

/-- One digit before the point, at least `places` behind it, and the power of ten. -/
def scientific (places : Nat) (plus : Bool) (d : Decimal) : List Char :=
  let power := if plus ∧ 0 ≤ d.magnitude then '+' :: signed d.magnitude else signed d.magnitude
  match digitChars d.digits with
  | [] => []
  | c :: ds =>
    let ds := ds ++ List.replicate (places - ds.length) '0'
    (if ds.isEmpty then [c] else c :: '.' :: ds) ++ 'e' :: power

theorem positional_of_nonneg {d : Decimal} (h : 0 ≤ d.exponent) :
    d.positional = digitChars d.digits ++ List.replicate d.exponent.toNat '0' := by
  simp [positional, h]

end Decimal

/-! ## Signed numbers and values beyond the numbers -/

/-- What is known of a scalar when it comes to be written down. -/
inductive Numeral
  | undefined
  | infinite (negative : Bool)
  | finite (negative : Bool) (magnitude : Decimal)
  deriving DecidableEq, Repr

namespace Numeral

def minus (negative : Bool) (text : List Char) : List Char := if negative then '-' :: text else text

/-- The form of formulas and messages: positional, whatever the size. -/
def plain : Numeral → String
  | undefined => "NaN"
  | infinite negative => String.ofList (minus negative "inf".toList)
  | finite negative d => String.ofList (minus negative d.positional)

/-- The form of progress reports: `places` digits behind the point and a power of ten. -/
def tabular (places : Nat) : Numeral → String
  | undefined => "NaN"
  | infinite negative => String.ofList (minus negative "inf".toList)
  | finite negative d => String.ofList (minus negative (d.scientific places false))

/-- The form of data files: always with a point or a power of ten, the latter for numbers that
reach `10 ^ 16` or stay below `10 ^ -5`. What is no number is `null`. -/
def data : Numeral → String
  | undefined => "null"
  | infinite _ => "null"
  | finite negative d =>
    String.ofList <| minus negative <|
      if d.digits ≠ 0 ∧ (d.magnitude < -5 ∨ 16 ≤ d.magnitude) then d.scientific 0 true
      else if 0 ≤ d.exponent then d.positional ++ ['.', '0']
      else d.positional

end Numeral

/-- `text` with blanks before it until it is `width` characters long. -/
def padLeft (width : Nat) (text : String) : String :=
  String.ofList (List.replicate (width - text.length) ' ') ++ text

/-- Scalars that can be written down. -/
class Printable (α : Type) where
  /-- The fewest digits that read back as the scalar, the nearest of those to it; a tie goes to the
  even digit if `tieToEven`, else up. -/
  shortest : (tieToEven : Bool) → α → Numeral
  /-- The scalar rounded to a number of significant digits. -/
  rounded : (figures : Nat) → α → Numeral

namespace Printable

variable {α : Type} [Printable α]

def plain (a : α) : String := (shortest false a).plain

def data (a : α) : String := (shortest true a).data

/-- One digit before the point and `places` behind it. -/
def tabular (places : Nat) (a : α) : String := (rounded (places + 1) a).tabular places

end Printable

end Optima
