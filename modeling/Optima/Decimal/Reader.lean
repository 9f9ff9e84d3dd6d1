import Optima.Decimal
import Optima.Scalar

/-!
Reading a number: digits with an optional point and an optional power of ten.

* `read?`: the decimal of a text, if all of the text is a number.
* `leadingDigits_append`: splitting off the leading digits loses nothing.
-/

namespace Optima.Decimal

/-- The number that decimal digits stand for, read after a number already seen. -/
def ofDigits (seen : Nat) (digits : List Char) : Nat :=
  digits.foldl (fun n c => 10 * n + (c.toNat - '0'.toNat)) seen

/-- Splits a text into its leading digits and the rest. -/
def leadingDigits (text : List Char) : List Char × List Char :=
  (text.takeWhile Char.isDigit, text.dropWhile Char.isDigit)

theorem leadingDigits_append (text : List Char) :
    (leadingDigits text).1 ++ (leadingDigits text).2 = text := by
  simp [leadingDigits]

/-- A power of ten: `e` or `E`, a sign or none, and digits to the end. -/
def readPower? : List Char → Option Int
  | [] => some 0
  | mark :: text =>
    if mark = 'e' ∨ mark = 'E' then
      let (negative, digits) : Bool × List Char :=
        match text with
        | '-' :: digits => (true, digits)
        | '+' :: digits => (false, digits)
        | digits => (false, digits)
      if digits.isEmpty ∨ ¬ digits.all Char.isDigit then none
      else some (if negative then -(ofDigits 0 digits : Int) else (ofDigits 0 digits : Int))
    else none

/-- Digits with at most one point among them, then a power of ten or nothing. -/
def read? (text : List Char) : Option Decimal :=
  let (whole, rest) := leadingDigits text
  let (fraction, rest) := match rest with
    | '.' :: rest => leadingDigits rest
    | rest => ([], rest)
  if whole.isEmpty ∧ fraction.isEmpty then none
  else (readPower? rest).map fun power =>
    normalize ⟨ofDigits (ofDigits 0 whole) fraction, power - fraction.length⟩

/-- The scalar that a decimal stands for. -/
def toScalar {α : Type} [Scalar α] (d : Decimal) : α := Scalar.ofDecimal d.digits d.exponent

end Optima.Decimal
