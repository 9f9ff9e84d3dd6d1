/-!
Tokens of formulas, and the places in a text that they come from.
-/

namespace Optima.Formula

/-- A stretch of a text, counted in bytes: `start` belongs to it and `stop` does not. -/
structure Span where
  start : Nat
  stop : Nat
  deriving DecidableEq, Repr

inductive Kind
  | ident | number
  | plus | minus | star | slash | caret | comma
  | leftParen | rightParen
  | eof
  | unknown
  deriving DecidableEq, Repr

structure Token where
  kind : Kind
  span : Span
  text : String
  deriving DecidableEq, Repr

/-- How messages name a kind. -/
def Kind.name : Kind → String
  | ident => "Ident"
  | number => "Number"
  | plus => "Plus"
  | minus => "Minus"
  | star => "Star"
  | slash => "Slash"
  | caret => "Caret"
  | comma => "Comma"
  | leftParen => "LParen"
  | rightParen => "RParen"
  | eof => "Eof"
  | unknown => "Error"

/-- How messages write a span. -/
def Span.describe (s : Span) : String :=
  "Span \x7b start: " ++ toString s.start ++ ", end: " ++ toString s.stop ++ " \x7d"

end Optima.Formula
