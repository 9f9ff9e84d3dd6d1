import Optima.Formula.Token
import Optima.Text.Blank
import Optima.Text.Numeric

/-!
Cutting a text into tokens: each token is as long as its kind allows, and only blanks are skipped.

* `lexeme`: the kind of the token that starts with a character, and how far it reaches.
* `scan`: the tokens of a text, without an end mark.
* `tokenize`: the tokens of a text followed by the end mark.
* `tokenize_getLast?`: the end mark is last and stands at the length of the text.
-/

namespace Optima.Formula

open Text

/-! ## Numbers -/

def digitCount (text : List Char) : Nat := (text.takeWhile Char.isDigit).length

/-- The length of a point and the digits behind it. -/
def fractionCount : List Char → Nat
  | '.' :: text => 1 + digitCount text
  | _ => 0

def startsWithDigit : List Char → Bool
  | c :: _ => c.isDigit
  | [] => false

/-- The length of a power of ten; without a digit there is none. -/
def powerCount : List Char → Nat
  | [] => 0
  | mark :: text =>
    if mark = 'e' ∨ mark = 'E' then
      match text with
      | '+' :: digits | '-' :: digits =>
        if startsWithDigit digits then 2 + digitCount digits else 0
      | digits => if startsWithDigit digits then 1 + digitCount digits else 0
    else 0

/-- The length of a number: digits, a point and more digits, and a power of ten. -/
def numberCount (text : List Char) : Nat :=
  let whole := digitCount text
  let fraction := fractionCount (text.drop whole)
  whole + fraction + powerCount (text.drop (whole + fraction))

def wordCount (text : List Char) : Nat := (text.takeWhile isWordChar).length

/-! ## Tokens -/

/-- The kind of the token that starts with `c`, and how many of the characters `text` behind `c`
belong to it. Two stars are another way to write a power. -/
def lexeme (c : Char) (text : List Char) : Kind × Nat :=
  match c with
  | '+' => (.plus, 0)
  | '-' => (.minus, 0)
  | '*' => if text.head? = some '*' then (.caret, 1) else (.star, 0)
  | '/' => (.slash, 0)
  | '^' => (.caret, 0)
  | ',' => (.comma, 0)
  | '(' => (.leftParen, 0)
  | ')' => (.rightParen, 0)
  | c =>
    if c.isDigit || (c == '.' && startsWithDigit text) then (.number, numberCount (c :: text) - 1)
    else if isWordStart c then (.ident, wordCount text)
    else (.unknown, 0)

def byteCount : List Char → Nat
  | [] => 0
  | c :: text => c.utf8Size + byteCount text

/-- The tokens of a text whose first character stands at byte `pos`. -/
def scanFrom (pos : Nat) : List Char → List Token
  | [] => []
  | c :: text =>
    if isBlank c then scanFrom (pos + c.utf8Size) text
    else
      let (kind, more) := lexeme c text
      let chars := c :: text.take more
      let stop := pos + byteCount chars
      ⟨kind, ⟨pos, stop⟩, String.ofList chars⟩ :: scanFrom stop (text.drop more)
termination_by text => text.length
decreasing_by all_goals simp; try omega

def scan (text : String) : List Token := scanFrom 0 text.toList

/-- The end mark of a text. -/
def endMark (text : String) : Token :=
  ⟨.eof, ⟨text.utf8ByteSize, text.utf8ByteSize⟩, ""⟩

def tokenize (text : String) : List Token := scan text ++ [endMark text]

theorem tokenize_getLast? (text : String) :
    (tokenize text).getLast? = some (endMark text) := by
  simp [tokenize]

end Optima.Formula
