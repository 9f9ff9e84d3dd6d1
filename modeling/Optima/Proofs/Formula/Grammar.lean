import Optima.Formula.Parser

/-!
The grammar of formulas as a type of derivation trees.

    sum     := product (("+" | "-") product)*
    product := signed (("*" | "/") signed)*
    signed  := ("-" | "+") signed | power
    power   := atom ("^" signed)?
    atom    := number | name | name "(" arguments ")" | "(" sum ")"

* `Derivation`: the trees, one constructor for each production.
* `Derivation.yield`: the tokens at the leaves; `Derivation.depth`: how many signed parts are open at
  once.
* `Derivation.Legible`: every name and every call has a meaning in a scope.
* `Derivation.image`: the expression of a tree, under the folding constructors.
* `Follows`: the lists of tokens that do not go on with a phrase.
-/

namespace Optima.Formula

/-! ## Phrases -/

/-- The phrases that stand for an expression. -/
inductive Operand
  | sum | product | signed | power | atom
  deriving DecidableEq, Repr

/-- Sums and products are chains: items with operators between them. -/
inductive Link
  | sum | product
  deriving DecidableEq, Repr

def Link.item : Link → Operand
  | sum => .product
  | product => .signed

/-- The phrase that a chain makes. -/
def Link.whole : Link → Operand
  | sum => .sum
  | product => .product

/-- A token of the kind joins two items of a chain, and stands for the operation. -/
inductive Joins : Link → Kind → BinaryOp → Prop
  | plus : Joins .sum .plus .add
  | minus : Joins .sum .minus .sub
  | star : Joins .product .star .mul
  | slash : Joins .product .slash .div

inductive Phrase
  | operand (o : Operand)
  /-- What stands behind the first item of a chain. -/
  | tail (link : Link)
  /-- One argument, or several with commas between them. -/
  | arguments
  deriving DecidableEq, Repr

/-! ## The meaning of names and numbers -/

/-- A name that is not called stands for something: the scope has it, or it is a constant. -/
def Known (scope : Scope) (name : String) : Prop :=
  (scope.find? name).isSome = true ∨ name = "pi" ∨ name = "e"

/-- The function of the name takes that many arguments. -/
def Takes (name : String) (count : Nat) : Prop :=
  (UnaryOp.ofName? name).isSome = true ∧ count = 1 ∨ name = "pow" ∧ count = 2

theorem not_takes_zero (name : String) : ¬ Takes name 0 := by
  rintro (⟨_, h⟩ | ⟨_, h⟩) <;> cases h

section

variable {α : Type} [Scalar α]

/-- Joins the items of a chain from the left. -/
def joined (first : Expr α) (tail : List (BinaryOp × Expr α)) : Expr α :=
  tail.foldl (fun left (op, right) => Expr.ofBinary left op right) first

def numberImage (text : String) : Expr α :=
  .const (((Decimal.read? text.toList).map Decimal.toScalar).getD Scalar.nan)

/-- A symbol of the scope goes before a constant of its name. -/
def nameImage (scope : Scope) (name : String) : Expr α :=
  match scope.find? name with
  | some s => .sym s
  | none => .const (if name = "pi" then Scalar.pi else Scalar.euler)

def callImage (name : String) (args : List (Expr α)) : Expr α :=
  match UnaryOp.ofName? name, args with
  | some op, arg :: _ => Expr.ofUnary op arg
  | none, base :: exponent :: _ => Expr.ofBinary base .pow exponent
  | _, _ => .const Scalar.nan

end

/-! ## Derivations -/

/-- The derivation trees of a phrase, with tokens for leaves. -/
inductive Derivation : Phrase → Type
  | sum (first : Derivation (.operand .product)) (tail : Derivation (.tail .sum)) :
      Derivation (.operand .sum)
  | product (first : Derivation (.operand .signed)) (tail : Derivation (.tail .product)) :
      Derivation (.operand .product)
  | done {link : Link} : Derivation (.tail link)
  | next {link : Link} (t : Token) (op : BinaryOp) (h : Joins link t.kind op)
      (item : Derivation (.operand link.item)) (tail : Derivation (.tail link)) :
      Derivation (.tail link)
  | minus (t : Token) (h : t.kind = .minus) (part : Derivation (.operand .signed)) :
      Derivation (.operand .signed)
  | plus (t : Token) (h : t.kind = .plus) (part : Derivation (.operand .signed)) :
      Derivation (.operand .signed)
  | unsigned (p : Derivation (.operand .power)) : Derivation (.operand .signed)
  | base (a : Derivation (.operand .atom)) : Derivation (.operand .power)
  | raised (a : Derivation (.operand .atom)) (t : Token) (h : t.kind = .caret)
      (exponent : Derivation (.operand .signed)) : Derivation (.operand .power)
  | number (t : Token) (h : t.kind = .number) : Derivation (.operand .atom)
  | name (t : Token) (h : t.kind = .ident) : Derivation (.operand .atom)
  | call (f l : Token) (args : Derivation .arguments) (r : Token) (hf : f.kind = .ident)
      (hl : l.kind = .leftParen) (hr : r.kind = .rightParen) : Derivation (.operand .atom)
  | emptyCall (f l r : Token) (hf : f.kind = .ident) (hl : l.kind = .leftParen)
      (hr : r.kind = .rightParen) : Derivation (.operand .atom)
  | parens (l : Token) (e : Derivation (.operand .sum)) (r : Token) (hl : l.kind = .leftParen)
      (hr : r.kind = .rightParen) : Derivation (.operand .atom)
  | last (e : Derivation (.operand .sum)) : Derivation .arguments
  | comma (e : Derivation (.operand .sum)) (t : Token) (h : t.kind = .comma)
      (rest : Derivation .arguments) : Derivation .arguments

/-- What a derivation of the phrase stands for. -/
abbrev Value (α : Type) : Phrase → Type
  | .operand _ => Expr α
  | .tail _ => List (BinaryOp × Expr α)
  | .arguments => List (Expr α)

namespace Derivation

/-- The tokens at the leaves, from left to right. -/
def yield : {p : Phrase} → Derivation p → List Token
  | _, sum first tail => first.yield ++ tail.yield
  | _, product first tail => first.yield ++ tail.yield
  | _, done => []
  | _, next t _ _ item tail => t :: item.yield ++ tail.yield
  | _, minus t _ part => t :: part.yield
  | _, plus t _ part => t :: part.yield
  | _, unsigned p => p.yield
  | _, base a => a.yield
  | _, raised a t _ exponent => a.yield ++ t :: exponent.yield
  | _, number t _ => [t]
  | _, name t _ => [t]
  | _, call f l args r _ _ _ => f :: l :: args.yield ++ [r]
  | _, emptyCall f l r _ _ _ => [f, l, r]
  | _, parens l e r _ _ => l :: e.yield ++ [r]
  | _, last e => e.yield
  | _, comma e t _ rest => e.yield ++ t :: rest.yield

/-- The largest number of signed parts that are open at once. -/
def depth : {p : Phrase} → Derivation p → Nat
  | _, sum first tail => max first.depth tail.depth
  | _, product first tail => max first.depth tail.depth
  | _, done => 0
  | _, next _ _ _ item tail => max item.depth tail.depth
  | _, minus _ _ part => part.depth + 1
  | _, plus _ _ part => part.depth + 1
  | _, unsigned p => p.depth + 1
  | _, base a => a.depth
  | _, raised a _ _ exponent => max a.depth exponent.depth
  | _, number _ _ => 0
  | _, name _ _ => 0
  | _, call _ _ args _ _ _ _ => args.depth
  | _, emptyCall .. => 0
  | _, parens _ e _ _ _ => e.depth
  | _, last e => e.depth
  | _, comma e _ _ rest => max e.depth rest.depth

/-- How many arguments there are. -/
def count : Derivation .arguments → Nat
  | last _ => 1
  | comma _ _ _ rest => rest.count + 1

/-! ## Meaning -/

/-- Every name is known, and every called name is that of a function of so many arguments. -/
def Legible (scope : Scope) : {p : Phrase} → Derivation p → Prop
  | _, sum first tail => first.Legible scope ∧ tail.Legible scope
  | _, product first tail => first.Legible scope ∧ tail.Legible scope
  | _, done => True
  | _, next _ _ _ item tail => item.Legible scope ∧ tail.Legible scope
  | _, minus _ _ part => part.Legible scope
  | _, plus _ _ part => part.Legible scope
  | _, unsigned p => p.Legible scope
  | _, base a => a.Legible scope
  | _, raised a _ _ exponent => a.Legible scope ∧ exponent.Legible scope
  | _, number _ _ => True
  | _, name t _ => Known scope t.text
  | _, call f _ args _ _ _ _ => Takes f.text args.count ∧ args.Legible scope
  | _, emptyCall f .. => Takes f.text 0
  | _, parens _ e _ _ _ => e.Legible scope
  | _, last e => e.Legible scope
  | _, comma e _ _ rest => e.Legible scope ∧ rest.Legible scope

/-- The expression of a legible tree, built with the folding constructors. -/
def image {α : Type} [Scalar α] (scope : Scope) : {p : Phrase} → Derivation p → Value α p
  | _, sum first tail => joined (first.image scope) (tail.image scope)
  | _, product first tail => joined (first.image scope) (tail.image scope)
  | _, done => []
  | _, next _ op _ item tail => (op, item.image scope) :: tail.image scope
  | _, minus _ _ part => Expr.ofUnary .neg (part.image scope)
  | _, plus _ _ part => part.image scope
  | _, unsigned p => p.image scope
  | _, base a => a.image scope
  | _, raised a _ _ exponent => Expr.ofBinary (a.image scope) .pow (exponent.image scope)
  | _, number t _ => numberImage t.text
  | _, name t _ => nameImage scope t.text
  | _, call f _ args _ _ _ _ => callImage f.text (args.image scope)
  | _, emptyCall f .. => callImage f.text []
  | _, parens _ e _ _ _ => e.image scope
  | _, last e => [e.image scope]
  | _, comma e _ _ rest => e.image scope :: rest.image scope

theorem length_image {α : Type} [Scalar α] (scope : Scope) :
    (args : Derivation .arguments) → (args.image scope : List (Expr α)).length = args.count
  | last _ => by simp [image, count]
  | comma _ _ _ rest => by simp [image, count, length_image scope rest]

end Derivation

/-! ## What a phrase starts with -/

/-- An atom, and so a power, can start with a token of the kind. -/
def Kind.opensAtom : Kind → Bool
  | .number | .ident | .leftParen => true
  | _ => false

/-- A signed part, a product or a sum can start with a token of the kind. -/
def Kind.opensSigned (kind : Kind) : Bool :=
  kind.opensAtom || kind == .plus || kind == .minus

namespace Derivation

theorem exists_yield_atom (a : Derivation (.operand .atom)) :
    ∃ t ts, a.yield = t :: ts ∧ t.kind.opensAtom = true := by
  cases a with
  | number t h => exact ⟨t, [], rfl, by simp [h, Kind.opensAtom]⟩
  | name t h => exact ⟨t, [], rfl, by simp [h, Kind.opensAtom]⟩
  | call f l args r hf hl hr => exact ⟨f, _, rfl, by simp [hf, Kind.opensAtom]⟩
  | emptyCall f l r hf hl hr => exact ⟨f, _, rfl, by simp [hf, Kind.opensAtom]⟩
  | parens l e r hl hr => exact ⟨l, _, rfl, by simp [hl, Kind.opensAtom]⟩

theorem exists_yield_power (p : Derivation (.operand .power)) :
    ∃ t ts, p.yield = t :: ts ∧ t.kind.opensAtom = true := by
  cases p with
  | base a => exact exists_yield_atom a
  | raised a t h exponent =>
    obtain ⟨u, us, hu, hk⟩ := exists_yield_atom a
    exact ⟨u, us ++ t :: exponent.yield, by simp [yield, hu], hk⟩

theorem exists_yield_signed (s : Derivation (.operand .signed)) :
    ∃ t ts, s.yield = t :: ts ∧ t.kind.opensSigned = true := by
  cases s with
  | minus t h part => exact ⟨t, _, rfl, by simp [h, Kind.opensSigned]⟩
  | plus t h part => exact ⟨t, _, rfl, by simp [h, Kind.opensSigned]⟩
  | unsigned p =>
    obtain ⟨t, ts, ht, hk⟩ := exists_yield_power p
    exact ⟨t, ts, ht, by simp [hk, Kind.opensSigned]⟩

theorem exists_yield_sum (e : Derivation (.operand .sum)) :
    ∃ t ts, e.yield = t :: ts ∧ t.kind.opensSigned = true := by
  cases e with
  | sum first tail =>
    cases first with
    | product s more =>
      obtain ⟨t, ts, ht, hk⟩ := exists_yield_signed s
      exact ⟨t, ts ++ more.yield ++ tail.yield, by simp [yield, ht], hk⟩

theorem exists_yield_arguments (args : Derivation .arguments) :
    ∃ t ts, args.yield = t :: ts ∧ t.kind.opensSigned = true := by
  cases args with
  | last e => exact exists_yield_sum e
  | comma e u h rest =>
    obtain ⟨t, ts, ht, hk⟩ := exists_yield_sum e
    exact ⟨t, ts ++ u :: rest.yield, by simp [yield, ht], hk⟩

theorem nextKind_yield_ne (args : Derivation .arguments) (rest : List Token) :
    Parser.nextKind (args.yield ++ rest) ≠ .rightParen := by
  obtain ⟨t, ts, ht, hk⟩ := exists_yield_arguments args
  intro h
  rw [ht] at h
  have hr : t.kind = .rightParen := h
  simp [hr, Kind.opensSigned, Kind.opensAtom] at hk

end Derivation

/-! ## What can follow a phrase -/

/-- How far out a phrase has to stand for a token of the kind not to go on with it: a parenthesis
would make a name a call, and a comma ends everything but a list of arguments. -/
def Kind.reach : Kind → Nat
  | .leftParen => 1
  | .caret => 2
  | .star | .slash => 3
  | .plus | .minus => 4
  | .comma => 5
  | _ => 6

/-- How far out a phrase stands. -/
def Phrase.reach : Phrase → Nat
  | .operand .atom => 1
  | .operand .power | .operand .signed => 2
  | .operand .product | .tail .product => 3
  | .operand .sum | .tail .sum => 4
  | .arguments => 5

/-- The first of the tokens, if there is one, does not go on with the phrase. -/
def Follows (p : Phrase) (tokens : List Token) : Prop :=
  ∀ t ∈ tokens.head?, p.reach < t.kind.reach

theorem follows_nil (p : Phrase) : Follows p [] := by simp [Follows]

theorem follows_cons {p : Phrase} {t : Token} {rest : List Token} :
    Follows p (t :: rest) ↔ p.reach < t.kind.reach := by simp [Follows]

theorem Joins.reach_lt {link : Link} {kind : Kind} {op : BinaryOp} (h : Joins link kind op) :
    (Phrase.operand link.item).reach < kind.reach := by
  cases h <;> decide

theorem Follows.mono {p q : Phrase} {tokens : List Token} (h : Follows q tokens)
    (hpq : p.reach ≤ q.reach) : Follows p tokens :=
  fun t ht => Nat.lt_of_le_of_lt hpq (h t ht)

theorem Follows.item {link : Link} {tokens : List Token} (h : Follows (.tail link) tokens) :
    Follows (.operand link.item) tokens :=
  h.mono (by cases link <;> decide)

/-- The rest of a chain does not go on with an item of it. -/
theorem Follows.append_tail {link : Link} {rest : List Token} (h : Follows (.tail link) rest)
    (tail : Derivation (.tail link)) : Follows (.operand link.item) (tail.yield ++ rest) := by
  cases tail with
  | done => exact h.item
  | next t op hj item tail => exact follows_cons.2 hj.reach_lt

end Optima.Formula
