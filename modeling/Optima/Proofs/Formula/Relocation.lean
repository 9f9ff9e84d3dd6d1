import Optima.Formula.Parser

/-!
Reading does not look at places.

* `Token.moved`, `Error.moved`: the same token, or error, with its span at another place.
* `Relocated`: two readings with the same value and the same rest at another place, or with the same
  error at another place.
* `Mirrors`: one reader does with tokens at other places what another one does with the tokens.
* `mirrors_sum`, `mirrors_atom`, `mirrors_signed`, …: one lemma for each reader of the parser.
* `parseTokens_moved`: so the spans of tokens decide on nothing but the span that an error shows.
-/

namespace Optima.Formula

open Optima.Formula.Parser

/-! ## Other places -/

def Token.moved (move : Span → Span) (t : Token) : Token := { t with span := move t.span }

@[simp] theorem Token.moved_kind (move : Span → Span) (t : Token) : (t.moved move).kind = t.kind :=
  rfl

@[simp] theorem Token.moved_text (move : Span → Span) (t : Token) : (t.moved move).text = t.text :=
  rfl

def Error.moved (move : Span → Span) : Error → Error
  | .unexpected expected found span => .unexpected expected found (move span)
  | .badNumber text => .badNumber text
  | .unknownSymbol name span => .unknownSymbol name (move span)
  | .unknownFunction name span => .unknownFunction name (move span)
  | .wrongArity name expected found => .wrongArity name expected found
  | .tooDeep limit span => .tooDeep limit (move span)

/-- The second reading is the first one at another place. -/
inductive Relocated {β : Type} {p q : List Token → Prop} (move : Span → Span) :
    Except Error (β × { rest : List Token // p rest }) →
      Except Error (β × { rest : List Token // q rest }) → Prop
  | ok (b : β) (rest : List Token) (hp : p rest) (hq : q (rest.map (Token.moved move))) :
    Relocated move (.ok (b, ⟨rest, hp⟩)) (.ok (b, ⟨rest.map (Token.moved move), hq⟩))
  | error (e : Error) : Relocated move (.error e) (.error (e.moved move))

section

variable {β : Type} {p q : List Token → Prop} {move : Span → Span}
  {o : Except Error (β × { rest : List Token // p rest })}
  {o' : Except Error (β × { rest : List Token // q rest })}

theorem Relocated.of_error (h : Relocated move o o') {e : Error} (he : o = .error e) :
    o' = .error (e.moved move) := by
  subst he
  cases h
  rfl

theorem Relocated.of_ok (h : Relocated move o o') {b : β} {rest : List Token} {hp : p rest}
    (he : o = .ok (b, ⟨rest, hp⟩)) :
    ∃ hq, o' = .ok (b, ⟨rest.map (Token.moved move), hq⟩) := by
  subst he
  cases h
  exact ⟨_, rfl⟩

end

/-- What `reader` does with tokens, `reader'` does with them at other places. -/
def Mirrors {β : Type} (move : Span → Span) (reader reader' : Reader β) : Prop :=
  ∀ tokens, Relocated move (reader tokens) (reader' (tokens.map (Token.moved move)))

/-! ## The next token -/

variable {move : Span → Span} (scope : Scope) {stop stop' : Nat}

theorem nextKind_moved (move : Span → Span) (tokens : List Token) :
    nextKind (tokens.map (Token.moved move)) = nextKind tokens := by
  cases tokens <;> rfl

theorem nextSpan_moved (hstop : move ⟨stop, stop⟩ = ⟨stop', stop'⟩) (tokens : List Token) :
    nextSpan ⟨scope, stop'⟩ (tokens.map (Token.moved move)) =
      move (nextSpan ⟨scope, stop⟩ tokens) := by
  cases tokens with
  | nil => exact hstop.symm
  | cons t tokens => rfl

theorem unexpected_moved (hstop : move ⟨stop, stop⟩ = ⟨stop', stop'⟩) (expected : Expected)
    (tokens : List Token) :
    unexpected ⟨scope, stop'⟩ expected (tokens.map (Token.moved move)) =
      (unexpected ⟨scope, stop⟩ expected tokens).moved move := by
  rw [unexpected, nextKind_moved, nextSpan_moved scope hstop]
  rfl

theorem Relocated.unexpected {β : Type} {p q : List Token → Prop}
    (hstop : move ⟨stop, stop⟩ = ⟨stop', stop'⟩) (expected : Expected) (tokens : List Token) :
    Relocated (β := β) (p := p) (q := q) move
      (.error (unexpected ⟨scope, stop⟩ expected tokens))
      (.error (unexpected ⟨scope, stop'⟩ expected (tokens.map (Token.moved move)))) := by
  rw [unexpected_moved scope hstop]
  exact .error _

theorem mirrors_expect (hstop : move ⟨stop, stop⟩ = ⟨stop', stop'⟩) (kind : Kind) :
    Mirrors move (expect ⟨scope, stop⟩ kind) (expect ⟨scope, stop'⟩ kind) := by
  intro tokens
  cases tokens with
  | nil => exact .unexpected scope hstop (.token kind) []
  | cons t tokens =>
    rw [List.map_cons]
    simp only [expect]
    rw [Token.moved_kind]
    split
    · exact .ok () tokens _ _
    · exact .unexpected scope hstop (.token kind) (t :: tokens)

/-! ## Arguments -/

variable {α : Type} {item item' part part' : Reader (Expr α)}

theorem arguments_moved (hi : Mirrors move item item') (tokens : List Token) :
    Relocated move (arguments item tokens)
      (arguments item' (tokens.map (Token.moved move))) := by
  fun_induction arguments item tokens with
  | case1 tokens e he =>
    rw [arguments, (hi tokens).of_error he]
    exact .error e
  | case2 tokens arg h he =>
    obtain ⟨h', he'⟩ := (hi tokens).of_ok he
    rw [arguments, he']
    exact .ok [arg] [] _ _
  | case3 tokens arg t rest h he ht e ha ih =>
    obtain ⟨h', he'⟩ := (hi tokens).of_ok he
    rw [arguments, he']
    simp only [List.map_cons, ih.of_error ha]
    rw [Token.moved_kind, if_pos ht]
    exact .error e
  | case4 tokens arg t rest h he ht args rest' h' ha ih =>
    obtain ⟨h₁, he'⟩ := (hi tokens).of_ok he
    obtain ⟨h₂, ha'⟩ := ih.of_ok ha
    rw [arguments, he']
    simp only [List.map_cons, ha']
    rw [Token.moved_kind, if_pos ht]
    exact .ok (arg :: args) rest' _ _
  | case5 tokens arg t rest h he ht =>
    obtain ⟨h', he'⟩ := (hi tokens).of_ok he
    rw [arguments, he']
    simp only [List.map_cons]
    rw [Token.moved_kind, if_neg ht]
    exact .ok [arg] (t :: rest) _ _

theorem mirrors_closedArguments (hstop : move ⟨stop, stop⟩ = ⟨stop', stop'⟩)
    (hi : Mirrors move item item') :
    Mirrors move (closedArguments ⟨scope, stop⟩ item) (closedArguments ⟨scope, stop'⟩ item') := by
  intro tokens
  have hx := mirrors_expect scope hstop .rightParen
  unfold closedArguments
  rw [nextKind_moved]
  split
  · split
    · next e he =>
      rw [(hx tokens).of_error he]
      exact .error e
    · next rest he =>
      obtain ⟨h', he'⟩ := (hx tokens).of_ok he
      rw [he']
      exact .ok [] rest.1 _ _
  · split
    · next e he =>
      rw [(arguments_moved hi tokens).of_error he]
      exact .error e
    · next args rest h he =>
      obtain ⟨h', he'⟩ := (arguments_moved hi tokens).of_ok he
      rw [he']
      dsimp only
      split
      · next e hr =>
        rw [(hx rest).of_error hr]
        exact .error e
      · next rest' h₁ hr =>
        obtain ⟨h₂, hr'⟩ := (hx rest).of_ok hr
        rw [hr']
        exact .ok args rest' _ _

/-! ## Chains and sums -/

variable [Scalar α]

theorem chainFrom_moved (hi : Mirrors move item item') (op? : Kind → Option BinaryOp)
    (left : Expr α) (tokens : List Token) :
    Relocated move (chainFrom op? item left tokens)
      (chainFrom op? item' left (tokens.map (Token.moved move))) := by
  fun_induction chainFrom op? item left tokens with
  | case1 left =>
    rw [List.map_nil, chainFrom]
    exact .ok left [] _ _
  | case2 left t tokens ht =>
    rw [List.map_cons, chainFrom, Token.moved_kind, ht]
    exact .ok left (t :: tokens) _ _
  | case3 left t tokens op ht e he =>
    rw [List.map_cons, chainFrom, Token.moved_kind, ht, (hi tokens).of_error he]
    exact .error e
  | case4 left t tokens op ht right rest h he e hc ih =>
    obtain ⟨h', he'⟩ := (hi tokens).of_ok he
    rw [List.map_cons, chainFrom, Token.moved_kind, ht]
    simp only [he', ih.of_error hc]
    exact .error e
  | case5 left t tokens op ht right rest h he e rest' h' hc ih =>
    obtain ⟨h₁, he'⟩ := (hi tokens).of_ok he
    obtain ⟨h₂, hc'⟩ := ih.of_ok hc
    rw [List.map_cons, chainFrom, Token.moved_kind, ht]
    simp only [he', hc']
    exact .ok e rest' _ _

theorem mirrors_chain (hi : Mirrors move item item') (op? : Kind → Option BinaryOp) :
    Mirrors move (chain op? item) (chain op? item') := by
  intro tokens
  unfold chain
  split
  · next e he =>
    rw [(hi tokens).of_error he]
    exact .error e
  · next left rest h he =>
    obtain ⟨h', he'⟩ := (hi tokens).of_ok he
    have hc := chainFrom_moved hi op? left rest
    simp only [he']
    split
    · next e hx =>
      rw [hc.of_error hx]
      exact .error e
    · next e rest' h₁ hx =>
      obtain ⟨h₂, hx'⟩ := hc.of_ok hx
      rw [hx']
      exact .ok e rest' _ _

theorem mirrors_sum (hp : Mirrors move part part') : Mirrors move (sum part) (sum part') :=
  mirrors_chain (mirrors_chain hp productOp?) sumOp?

/-! ## Atoms -/

theorem name_moved (t : Token) :
    (Parser.name ⟨scope, stop'⟩ (t.moved move) : Except Error (Expr α)) =
      (Parser.name ⟨scope, stop⟩ t).mapError (Error.moved move) := by
  unfold Parser.name
  rw [Token.moved_text]
  dsimp only
  split
  · rfl
  · split
    · rfl
    · split <;> rfl

theorem apply_moved (t : Token) (args : List (Expr α)) :
    Parser.apply (t.moved move) args = (Parser.apply t args).mapError (Error.moved move) := by
  unfold Parser.apply
  rw [Token.moved_text]
  split
  · split <;> rfl
  · split
    · split <;> rfl
    · rfl

/-- A name without a parenthesis behind it stands for itself. -/
theorem atom_ident {ctx : Context} (part : Reader (Expr α)) {t : Token} {tokens : List Token}
    (hk : t.kind = .ident) (hn : nextKind tokens ≠ .leftParen) :
    atom ctx part (t :: tokens) =
      (Parser.name ctx t).map fun e => (e, ⟨tokens, Nat.lt_succ_self tokens.length⟩) := by
  simp only [atom, hk]
  cases tokens with
  | nil => cases (Parser.name ctx t : Except Error (Expr α)) <;> rfl
  | cons u tokens =>
    obtain ⟨kind, span, text⟩ := u
    cases kind with
    | leftParen => exact absurd rfl hn
    | _ => cases (Parser.name ctx t : Except Error (Expr α)) <;> rfl

theorem mirrors_atom (hstop : move ⟨stop, stop⟩ = ⟨stop', stop'⟩) (hp : Mirrors move part part') :
    Mirrors move (atom ⟨scope, stop⟩ part) (atom ⟨scope, stop'⟩ part') := by
  intro tokens
  cases tokens with
  | nil => exact .unexpected scope hstop .operand []
  | cons t tokens =>
    obtain ⟨kind, span, text⟩ := t
    rw [List.map_cons]
    cases kind with
    | number =>
      simp only [atom, Token.moved, number]
      cases Decimal.read? text.toList with
      | none => exact .error (.badNumber text)
      | some d => exact .ok _ tokens _ _
    | ident =>
      by_cases hn : nextKind tokens = .leftParen
      · cases tokens with
        | nil => cases hn
        | cons u tokens =>
          obtain ⟨_, span', text'⟩ := u
          cases hn
          have hargs := mirrors_closedArguments scope hstop (mirrors_sum hp) tokens
          rw [List.map_cons]
          simp only [atom, Token.moved]
          split
          · next e he =>
            rw [hargs.of_error he]
            exact .error e
          · next args rest h he =>
            obtain ⟨h', he'⟩ := hargs.of_ok he
            have happly : Parser.apply ⟨.ident, move span, text⟩ args = _ :=
              apply_moved ⟨.ident, span, text⟩ args
            simp only [he']
            rw [happly]
            cases Parser.apply ⟨.ident, span, text⟩ args with
            | error e => exact .error e
            | ok e => exact .ok e rest _ _
      · rw [atom_ident part rfl hn, atom_ident part' rfl (by rwa [nextKind_moved]), name_moved]
        cases (Parser.name ⟨scope, stop⟩ ⟨.ident, span, text⟩ : Except Error (Expr α)) with
        | error e => exact .error e
        | ok e => exact .ok e tokens _ _
    | leftParen =>
      have hs := mirrors_sum hp tokens
      simp only [atom, Token.moved]
      split
      · next e he =>
        rw [hs.of_error he]
        exact .error e
      · next e rest h he =>
        obtain ⟨h', he'⟩ := hs.of_ok he
        have hx := mirrors_expect scope hstop .rightParen rest
        simp only [he']
        split
        · next e' hr =>
          rw [hx.of_error hr]
          exact .error e'
        · next rest' h₁ hr =>
          obtain ⟨h₂, hr'⟩ := hx.of_ok hr
          rw [hr']
          exact .ok e rest' _ _
    | _ => exact .unexpected scope hstop .operand (⟨_, span, text⟩ :: tokens)

/-! ## Powers and signs -/

theorem mirrors_power (hstop : move ⟨stop, stop⟩ = ⟨stop', stop'⟩) (hp : Mirrors move part part') :
    Mirrors move (power ⟨scope, stop⟩ part) (power ⟨scope, stop'⟩ part') := by
  intro tokens
  have ha := mirrors_atom scope hstop hp tokens
  unfold power
  cases he : atom ⟨scope, stop⟩ part tokens with
  | error e =>
    rw [ha.of_error he]
    exact .error e
  | ok r =>
    obtain ⟨base, rest, h⟩ := r
    obtain ⟨h', he'⟩ := ha.of_ok he
    rw [he']
    cases rest with
    | nil => exact .ok base [] _ _
    | cons t rest =>
      obtain ⟨kind, span, text⟩ := t
      cases kind with
      | caret =>
        simp only [List.map_cons, Token.moved]
        split
        · next e hx =>
          rw [(hp rest).of_error hx]
          exact .error e
        · next e rest' h₁ hx =>
          obtain ⟨h₂, hx'⟩ := (hp rest).of_ok hx
          rw [hx']
          exact .ok _ rest' _ _
      | _ => exact .ok base (⟨_, span, text⟩ :: rest) _ _

theorem mirrors_signedWith (hstop : move ⟨stop, stop⟩ = ⟨stop', stop'⟩)
    (hp : Mirrors move part part') :
    Mirrors move (signedWith ⟨scope, stop⟩ part) (signedWith ⟨scope, stop'⟩ part') := by
  intro tokens
  cases tokens with
  | nil => exact mirrors_power scope hstop hp []
  | cons t tokens =>
    obtain ⟨kind, span, text⟩ := t
    have hs := hp tokens
    have hpower := mirrors_power scope hstop hp (⟨kind, span, text⟩ :: tokens)
    rw [List.map_cons] at hpower ⊢
    cases kind with
    | minus | plus =>
      simp only [signedWith, Token.moved]
      split
      · next e he =>
        rw [hs.of_error he]
        exact .error e
      · next e rest h he =>
        obtain ⟨h', he'⟩ := hs.of_ok he
        rw [he']
        exact .ok _ rest _ _
    | _ => exact hpower

theorem mirrors_signed (hstop : move ⟨stop, stop⟩ = ⟨stop', stop'⟩) (room : Nat) :
    Mirrors move (signed ⟨scope, stop⟩ room : Reader (Expr α)) (signed ⟨scope, stop'⟩ room) := by
  induction room with
  | zero =>
    intro tokens
    simp only [signed, nextSpan_moved scope hstop]
    exact .error (.tooDeep maxDepth _)
  | succ room ih => exact mirrors_signedWith scope hstop ih

/-! ## All tokens -/

/-- At other places tokens are read as the same expression, or refused with the same error at
another place. -/
theorem parseTokens_moved (hstop : move ⟨stop, stop⟩ = ⟨stop', stop'⟩) (tokens : List Token) :
    (parseTokens ⟨scope, stop'⟩ (tokens.map (Token.moved move)) : Except Error (Expr α)) =
      (parseTokens ⟨scope, stop⟩ tokens).mapError (Error.moved move) := by
  have hsigned : Mirrors move (signed ⟨scope, stop⟩ maxDepth : Reader (Expr α)) _ :=
    mirrors_signed scope hstop maxDepth
  have hs := mirrors_sum hsigned tokens
  unfold parseTokens
  cases he : (sum (signed ⟨scope, stop⟩ maxDepth) tokens : Outcome (Expr α) tokens) with
  | error e =>
    rw [hs.of_error he]
    rfl
  | ok r =>
    obtain ⟨e, rest, h⟩ := r
    obtain ⟨h', he'⟩ := hs.of_ok he
    rw [he']
    cases rest with
    | nil => rfl
    | cons t rest => exact congrArg Except.error (unexpected_moved scope hstop (.token .eof) (t :: rest))

end Optima.Formula
