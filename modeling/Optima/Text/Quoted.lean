import Optima.Decimal

/-!
Quoted texts of data files.

* `quote`: a text between quotation marks, with what cannot stand there written as an escape.
* `escape_of_plain`: most characters stand for themselves.
-/

namespace Optima.Text

/-- A hexadecimal digit. -/
def hexDigit (n : Nat) : Char := Nat.digitChar (n % 16)

/-- How a character is written between quotation marks. Control characters have short forms or are
written by their code. -/
def escape (c : Char) : List Char :=
  if c = '"' then ['\\', '"']
  else if c = '\\' then ['\\', '\\']
  else if c.toNat = 8 then ['\\', 'b']
  else if c.toNat = 9 then ['\\', 't']
  else if c.toNat = 10 then ['\\', 'n']
  else if c.toNat = 12 then ['\\', 'f']
  else if c.toNat = 13 then ['\\', 'r']
  else if c.toNat < 32 then
    ['\\', 'u', '0', '0', hexDigit (c.toNat / 16), hexDigit c.toNat]
  else [c]

def quote (text : String) : String := String.ofList ('"' :: text.toList.flatMap escape ++ ['"'])

theorem escape_of_plain {c : Char} (hq : c ≠ '"') (hb : c ≠ '\\') (hc : 32 ≤ c.toNat) :
    escape c = [c] := by
  have h8 : c.toNat ≠ 8 := by omega
  have h9 : c.toNat ≠ 9 := by omega
  have h10 : c.toNat ≠ 10 := by omega
  have h12 : c.toNat ≠ 12 := by omega
  have h13 : c.toNat ≠ 13 := by omega
  have h32 : ¬ c.toNat < 32 := by omega
  simp [escape, hq, hb, h8, h9, h10, h12, h13, h32]

end Optima.Text
