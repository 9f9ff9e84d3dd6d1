import Optima.Decimal.Reader
import Optima.Expr.Fold
import Optima.Formula.Error
import Optima.Formula.Scan
import Optima.Formula.Scope

/-!
Reading formulas.

A formula is a sum of products of signed powers:

    sum     := product (("+" | "-") product)*
    product := signed (("*" | "/") signed)*
    signed  := ("-" | "+") signed | power
    power   := atom ("^" signed)?
    atom    := number | name | name "(" arguments ")" | "(" sum ")"

Sums and products group to the left and powers to the right. Only so many signed parts may be open
at once; `signed` recurses on how many more there may be.

* `Reader`: what is read from a list of tokens, with a strictly shorter rest.
* `parse`: the expression of a whole text, built with the folding constructors.
-/

namespace Optima.Formula

/-- A value read from the front of `tokens`, and the rest; at least one token has been used. -/
abbrev Outcome (β : Type) (tokens : List Token) : Type :=
  Except Error (β × { rest : List Token // rest.length < tokens.length })

abbrev Reader (β : Type) : Type := (tokens : List Token) → Outcome β tokens

/-- How many signed parts may be open at once. -/
def maxDepth : Nat := 128

/-- What a formula is read in: the visible symbols, and the byte where the text ends. -/
structure Context where
  scope : Scope
  stop : Nat

namespace Parser

variable {α : Type} [Scalar α]

/-! ## Looking at the next token -/

def nextKind : List Token → Kind
  | [] => .eof
  | t :: _ => t.kind

def nextSpan (ctx : Context) : List Token → Span
  | [] => ⟨ctx.stop, ctx.stop⟩
  | t :: _ => t.span

def unexpected (ctx : Context) (expected : Expected) (tokens : List Token) : Error :=
  .unexpected expected (nextKind tokens) (nextSpan ctx tokens)

/-- The rest behind a token of the given kind, which must be next. -/
def expect (ctx : Context) (kind : Kind) : Reader Unit
  | t :: rest => if t.kind = kind then .ok ((), ⟨rest, by simp⟩)
    else .error (unexpected ctx (.token kind) (t :: rest))
  | [] => .error (unexpected ctx (.token kind) [])

/-! ## Chains of operators -/

def sumOp? : Kind → Option BinaryOp
  | .plus => some .add
  | .minus => some .sub
  | _ => none

def productOp? : Kind → Option BinaryOp
  | .star => some .mul
  | .slash => some .div
  | _ => none

/-- Goes on from `left` with operators and items, grouping to the left. -/
def chainFrom (op? : Kind → Option BinaryOp) (item : Reader (Expr α)) (left : Expr α)
    (tokens : List Token) :
    Except Error (Expr α × { rest : List Token // rest.length ≤ tokens.length }) :=
  match tokens with
  | [] => .ok (left, ⟨[], by simp⟩)
  | t :: tokens =>
    match op? t.kind with
    | none => .ok (left, ⟨t :: tokens, by simp⟩)
    | some op =>
      match item tokens with
      | .error e => .error e
      | .ok (right, ⟨rest, h⟩) =>
        match chainFrom op? item (Expr.ofBinary left op right) rest with
        | .error e => .error e
        | .ok (e, ⟨rest', h'⟩) => .ok (e, ⟨rest', by simp; omega⟩)
termination_by tokens.length

/-- One item, or several joined by operators. -/
def chain (op? : Kind → Option BinaryOp) (item : Reader (Expr α)) : Reader (Expr α) := fun tokens =>
  match item tokens with
  | .error e => .error e
  | .ok (left, ⟨rest, h⟩) =>
    match chainFrom op? item left rest with
    | .error e => .error e
    | .ok (e, ⟨rest', h'⟩) => .ok (e, ⟨rest', by omega⟩)

/-- A whole sum, given how its signed parts are read. -/
def sum (part : Reader (Expr α)) : Reader (Expr α) := chain sumOp? (chain productOp? part)

/-! ## Atoms -/

def number (text : String) : Except Error (Expr α) :=
  match Decimal.read? text.toList with
  | some d => .ok (.const d.toScalar)
  | none => .error (.badNumber text)

/-- The meaning of a name that is not called: a symbol of the scope before a known constant. -/
def name (ctx : Context) (t : Token) : Except Error (Expr α) :=
  match ctx.scope.find? t.text with
  | some s => .ok (.sym s)
  | none =>
    if t.text = "pi" then .ok (.const Scalar.pi)
    else if t.text = "e" then .ok (.const Scalar.euler)
    else .error (.unknownSymbol t.text t.span)

/-- The meaning of a name that is called with arguments. -/
def apply (t : Token) (args : List (Expr α)) : Except Error (Expr α) :=
  match UnaryOp.ofName? t.text with
  | some op =>
    match args with
    | [arg] => .ok (Expr.ofUnary op arg)
    | _ => .error (.wrongArity t.text 1 args.length)
  | none =>
    if t.text = "pow" then
      match args with
      | [base, exponent] => .ok (Expr.ofBinary base .pow exponent)
      | _ => .error (.wrongArity t.text 2 args.length)
    else .error (.unknownFunction t.text t.span)

/-- Arguments with commas between them, up to and without the closing parenthesis. -/
def arguments (item : Reader (Expr α)) (tokens : List Token) : Outcome (List (Expr α)) tokens :=
  match item tokens with
  | .error e => .error e
  | .ok (arg, ⟨[], h⟩) => .ok ([arg], ⟨[], h⟩)
  | .ok (arg, ⟨t :: rest, h⟩) =>
    if t.kind = .comma then
      match arguments item rest with
      | .error e => .error e
      | .ok (args, ⟨rest', h'⟩) => .ok (arg :: args, ⟨rest', by simp at h; omega⟩)
    else .ok ([arg], ⟨t :: rest, h⟩)
termination_by tokens.length
decreasing_by simp at h; omega

/-- The arguments of a call and the closing parenthesis. -/
def closedArguments (ctx : Context) (item : Reader (Expr α)) : Reader (List (Expr α)) :=
    fun tokens =>
  if nextKind tokens = .rightParen then
    match expect ctx .rightParen tokens with
    | .error e => .error e
    | .ok ((), rest) => .ok ([], rest)
  else
    match arguments item tokens with
    | .error e => .error e
    | .ok (args, ⟨rest, h⟩) =>
      match expect ctx .rightParen rest with
      | .error e => .error e
      | .ok ((), ⟨rest', h'⟩) => .ok (args, ⟨rest', by omega⟩)

/-- A number, a name, a call or an expression in parentheses. -/
def atom (ctx : Context) (part : Reader (Expr α)) : Reader (Expr α)
  | [] => .error (unexpected ctx .operand [])
  | t :: tokens =>
    match t.kind with
    | .number =>
      match number t.text with
      | .error e => .error e
      | .ok e => .ok (e, ⟨tokens, by simp⟩)
    | .ident =>
      match tokens with
      | ⟨.leftParen, _, _⟩ :: tokens' =>
        match closedArguments ctx (sum part) tokens' with
        | .error e => .error e
        | .ok (args, ⟨rest, h⟩) =>
          match apply t args with
          | .error e => .error e
          | .ok e => .ok (e, ⟨rest, by simp; omega⟩)
      | tokens =>
        match name ctx t with
        | .error e => .error e
        | .ok e => .ok (e, ⟨tokens, by simp⟩)
    | .leftParen =>
      match sum part tokens with
      | .error e => .error e
      | .ok (e, ⟨rest, h⟩) =>
        match expect ctx .rightParen rest with
        | .error e => .error e
        | .ok ((), ⟨rest', h'⟩) => .ok (e, ⟨rest', by simp; omega⟩)
    | _ => .error (unexpected ctx .operand (t :: tokens))

/-! ## Powers and signs -/

def power (ctx : Context) (part : Reader (Expr α)) : Reader (Expr α) := fun tokens =>
  match atom ctx part tokens with
  | .error e => .error e
  | .ok (base, ⟨⟨.caret, _, _⟩ :: rest, h⟩) =>
    match part rest with
    | .error e => .error e
    | .ok (exponent, ⟨rest', h'⟩) =>
      .ok (Expr.ofBinary base .pow exponent, ⟨rest', by simp at h; omega⟩)
  | .ok (base, rest) => .ok (base, rest)

/-- A signed part, in which `part` reads the signed parts that it contains. -/
def signedWith (ctx : Context) (part : Reader (Expr α)) : Reader (Expr α)
  | ⟨.minus, _, _⟩ :: tokens =>
    match part tokens with
    | .error e => .error e
    | .ok (e, ⟨rest, h⟩) => .ok (Expr.ofUnary .neg e, ⟨rest, by simp; omega⟩)
  | ⟨.plus, _, _⟩ :: tokens =>
    match part tokens with
    | .error e => .error e
    | .ok (e, ⟨rest, h⟩) => .ok (e, ⟨rest, by simp; omega⟩)
  | tokens => power ctx part tokens

/-- A signed part inside which `room - 1` more may be open at once. -/
def signed (ctx : Context) : (room : Nat) → Reader (Expr α)
  | 0 => fun tokens => .error (.tooDeep maxDepth (nextSpan ctx tokens))
  | room + 1 => signedWith ctx (signed ctx room)

end Parser

variable {α : Type} [Scalar α]

/-- The expression of a whole list of tokens. -/
def parseTokens (ctx : Context) (tokens : List Token) : Except Error (Expr α) :=
  match Parser.sum (Parser.signed ctx maxDepth) tokens with
  | .error e => .error e
  | .ok (e, ⟨[], _⟩) => .ok e
  | .ok (_, ⟨t :: rest, _⟩) => .error (Parser.unexpected ctx (.token .eof) (t :: rest))

/-- Reads a formula in a scope. -/
def parse (scope : Scope) (text : String) : Except Error (Expr α) :=
  parseTokens ⟨scope, text.utf8ByteSize⟩ (scan text)

end Optima.Formula
