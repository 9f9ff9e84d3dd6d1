import Optima.Formula.Token

/-!
What can be wrong with a formula.

* `Error.message`: the text for each cause.
-/

namespace Optima.Formula

/-- What a formula should have gone on with. -/
inductive Expected
  | token (kind : Kind)
  | operand
  deriving DecidableEq, Repr

def Expected.describe : Expected → String
  | token kind => kind.name
  | operand => "number, identifier, or ("

inductive Error
  | unexpected (expected : Expected) (found : Kind) (span : Span)
  | badNumber (text : String)
  | unknownSymbol (name : String) (span : Span)
  | unknownFunction (name : String) (span : Span)
  | wrongArity (name : String) (expected found : Nat)
  | tooDeep (limit : Nat) (span : Span)
  deriving DecidableEq, Repr

def Error.message : Error → String
  | unexpected expected found span =>
    "Unexpected token: expected " ++ expected.describe ++ ", found " ++ found.name ++
      " at position " ++ span.describe
  | badNumber text => "Invalid number: " ++ text
  | unknownSymbol name span =>
    "Unknown symbol '" ++ name ++ "' at position " ++ span.describe
  | unknownFunction name span =>
    "Unknown function '" ++ name ++ "' at position " ++ span.describe
  | wrongArity name expected found =>
    "Function '" ++ name ++ "' takes " ++ toString expected ++ " argument(s), found " ++
      toString found
  | tooDeep limit span =>
    "Expression nested deeper than " ++ toString limit ++ " levels at position " ++ span.describe

end Optima.Formula
