import Optima.Proofs.Formula.Completeness
import Optima.Proofs.Formula.Partition
import Optima.Proofs.Formula.Prefixes
import Optima.Proofs.Formula.Soundness

/-!
Where a formula that is refused goes wrong.

* `Stops`: what has been read of some tokens is over where the rest begins.
* `Locates`: an error is at the token that a phrase is stuck at, or at a name without a meaning.
* `Places`: a reading either ends in an error that is located so, or stops where its phrase is over.
* `places_chain`, `places_atom`, `places_power`: so it is for a reader if it is for those inside it.
* `places_signed`: so it is for signed parts, at every depth.
* `parse_error_place`: the token that a refused text is reported for.
-/

namespace Optima.Formula

open Optima.Formula.Parser

/-- The end mark of the text that is read. -/
def Context.mark (ctx : Context) : Token := ⟨.eof, ⟨ctx.stop, ctx.stop⟩, ""⟩

/-! ## Where a reading ends -/

/-- What has been read of the tokens is over where the rest begins. -/
def Stops (p : Phrase) (tokens rest : List Token) : Prop :=
  ∃ read, read ++ rest = tokens ∧ Ends p read (nextKind rest)

theorem Stops.append_left {p : Phrase} {tokens rest : List Token} (h : Stops p tokens rest)
    (before : List Token) : Stops p (before ++ tokens) rest := by
  obtain ⟨read, rfl, hends⟩ := h
  exact ⟨before ++ read, List.append_assoc .., hends.append_left before⟩

theorem Stops.raise {p q : Phrase} {tokens rest : List Token} (h : Stops p tokens rest)
    (hq : p.reach < (nextKind rest).reach → q.reach < (nextKind rest).reach) :
    Stops q tokens rest := by
  obtain ⟨read, hread, hends⟩ := h
  exact ⟨read, hread, hends.raise hq⟩

/-- What has been read is the derivation that stands in front of the rest. -/
theorem Stops.ends {p : Phrase} {d : Derivation p} {rest : List Token}
    (h : Stops p (d.yield ++ rest) rest) : Ends p d.yield (nextKind rest) := by
  obtain ⟨read, hread, hends⟩ := h
  rwa [List.append_cancel_right hread] at hends

theorem ends_atom {tokens : List Token} {kind : Kind} (h : kind ≠ .leftParen) :
    Ends (.operand .atom) tokens kind :=
  .follows (by cases kind <;> first | exact absurd rfl h | decide)

/-- An atom is over behind a number and behind a closing parenthesis, whatever is next. -/
theorem stops_closed (before : List Token) {last : Token} (h : last.kind.closesAtom = true)
    (rest : List Token) : Stops (.operand .atom) (before ++ last :: rest) rest := by
  refine ⟨before ++ [last], by simp, ?_⟩
  by_cases hk : nextKind rest = .leftParen
  · exact .closed rfl h hk
  · exact ends_atom hk

/-! ## Where an error is -/

/-- Among the tokens, the name stands at the span, and it is called or not. -/
def NameAt (tokens : List Token) (name : String) (span : Span) (called : Prop) : Prop :=
  ∃ before t after, tokens = before ++ t :: after ∧ t.kind = .ident ∧ t.text = name ∧
    t.span = span ∧ (nextKind after = .leftParen ↔ called)

theorem NameAt.append_left {tokens : List Token} {name : String} {span : Span} {called : Prop}
    (h : NameAt tokens name span called) (front : List Token) :
    NameAt (front ++ tokens) name span called := by
  obtain ⟨before, t, after, rfl, h⟩ := h
  exact ⟨front ++ before, t, after, (List.append_assoc ..).symm, h⟩

/-- An error while a phrase is read from the tokens is at the one that it is stuck at, or at a name
without a meaning. Other errors have no place, or one that depends on the depth. -/
def Locates (p : Phrase) (tokens : List Token) : Error → Prop
  | .unexpected _ found span => ∃ read t after, tokens = read ++ t :: after ∧ t.kind = found ∧
      t.span = span ∧ Stuck p read t
  | .unknownSymbol name span => NameAt tokens name span False
  | .unknownFunction name span => NameAt tokens name span True
  | .badNumber _ | .wrongArity .. | .tooDeep .. => True

/-- An error inside a part of a phrase is one of the phrase if that is stuck where the part is. -/
theorem Locates.append_left {p q : Phrase} {tokens : List Token} {e : Error}
    (h : Locates p tokens e) (before : List Token)
    (hstuck : ∀ {read t}, nextKind (read ++ [t]) = nextKind tokens → Stuck p read t →
      Stuck q (before ++ read) t) : Locates q (before ++ tokens) e := by
  cases e with
  | unexpected expected found span =>
    obtain ⟨read, t, after, rfl, hfound, hspan, h⟩ := h
    exact ⟨before ++ read, t, after, (List.append_assoc ..).symm, hfound, hspan,
      hstuck (nextKind_append_cons read t after).symm h⟩
  | unknownSymbol name span => exact NameAt.append_left h before
  | unknownFunction name span => exact NameAt.append_left h before
  | badNumber text => trivial
  | wrongArity name expected found => trivial
  | tooDeep limit span => trivial

theorem Locates.lift {p q : Phrase} {tokens : List Token} {e : Error} (h : Locates p tokens e)
    (hstuck : ∀ {read t}, nextKind (read ++ [t]) = nextKind tokens → Stuck p read t →
      Stuck q read t) : Locates q tokens e :=
  h.append_left [] hstuck

theorem nextKind_mark (ctx : Context) (tokens : List Token) :
    nextKind (tokens ++ [ctx.mark]) = nextKind tokens := by
  cases tokens <;> rfl

theorem exists_next (ctx : Context) (tokens : List Token) :
    ∃ t after, tokens ++ [ctx.mark] = t :: after ∧ t.kind = nextKind tokens ∧
      t.span = nextSpan ctx tokens := by
  cases tokens with
  | nil => exact ⟨ctx.mark, [], rfl, rfl, rfl⟩
  | cons t tokens => exact ⟨t, tokens ++ [ctx.mark], rfl, rfl, rfl⟩

theorem nextKind_ne {kind : Kind} (hkind : kind ≠ .eof) {tokens : List Token}
    (h : ∀ span text rest, tokens = ⟨kind, span, text⟩ :: rest → False) :
    nextKind tokens ≠ kind := by
  intro hk
  cases tokens with
  | nil => exact hkind hk.symm
  | cons t tokens => exact h t.span t.text tokens (by rw [← hk]; rfl)

/-- A phrase that is stuck at the next token is reported for it. -/
theorem locates_unexpected (ctx : Context) {p : Phrase} (expected : Expected)
    (read rest : List Token) (hstuck : ∀ t, t.kind = nextKind rest → Stuck p read t) :
    Locates p (read ++ (rest ++ [ctx.mark])) (unexpected ctx expected rest) := by
  obtain ⟨t, after, hrest, hkind, hspan⟩ := exists_next ctx rest
  exact ⟨read, t, after, by rw [hrest], hkind, hspan, hstuck t hkind⟩

/-! ## Readers -/

section

variable {β : Type} {P : List Token → Prop}

/-- An error of the reading is located, and a value leaves a rest where the phrase is over. -/
structure Places (ctx : Context) (p : Phrase) (tokens : List Token)
    (o : Except Error (β × { rest : List Token // P rest })) : Prop where
  locates : ∀ e, o = .error e → Locates p (tokens ++ [ctx.mark]) e
  stops : ∀ b rest, o = .ok (b, rest) → Stops p tokens rest.1

variable {ctx : Context} {p : Phrase} {tokens : List Token}

theorem Places.error {e : Error} (h : Locates p (tokens ++ [ctx.mark]) e) :
    Places ctx p tokens (.error e : Except Error (β × { rest : List Token // P rest })) where
  locates e' he := by
    cases he
    exact h
  stops b rest he := by cases he

theorem Places.ok {b : β} {rest : { rest : List Token // P rest }} (h : Stops p tokens rest.1) :
    Places ctx p tokens (.ok (b, rest)) where
  locates e he := by cases he
  stops b' rest' he := by
    cases he
    exact h

end

def PlacesAll {β : Type} (ctx : Context) (o : Operand) (reader : Reader β) : Prop :=
  ∀ tokens, Places ctx (.operand o) tokens (reader tokens)

variable {α : Type} [Scalar α] {ctx : Context} {room : Nat}

theorem expect_eq_error {kind : Kind} (hkind : kind ≠ .eof) {tokens : List Token} {e : Error}
    (h : expect ctx kind tokens = .error e) :
    nextKind tokens ≠ kind ∧ e = unexpected ctx (.token kind) tokens := by
  unfold expect at h
  split at h
  · split at h
    · cases h
    · next hne =>
      cases h
      exact ⟨hne, rfl⟩
  · cases h
    exact ⟨hkind.symm, rfl⟩

/-- What a sound reader has read is a derivation. -/
theorem Sound.exists_yield {o : Operand} {reader : Reader (Expr α)} (hs : Sound ctx room o reader)
    {tokens rest : List Token} {e : Expr α} {hlt : rest.length < tokens.length}
    (h : reader tokens = .ok (e, ⟨rest, hlt⟩)) :
    ∃ d : Derivation (.operand o), tokens = d.yield ++ rest := by
  obtain ⟨d, hy, -⟩ := hs tokens e ⟨rest, hlt⟩ h
  exact ⟨d, hy.symm⟩

/-! ### Chains -/

theorem joins_of_op? {link : Link} {kind : Kind} {op : BinaryOp} (h : link.op? kind = some op) :
    Joins link kind op := by
  cases link with
  | sum => exact joins_of_sumOp? h
  | product => exact joins_of_productOp? h

/-- A token that ends an item and joins none ends the chain. -/
theorem reach_tail_lt {link : Link} {kind : Kind} (h : link.op? kind = none)
    (hitem : (Phrase.operand link.item).reach < kind.reach) :
    (Phrase.tail link).reach < kind.reach := by
  revert h hitem
  cases link <;> cases kind <;> decide

variable {link : Link} {item : Reader (Expr α)}

/-- A chain only fails behind an operator. -/
theorem follows_of_chainFrom_error {left : Expr α} {tokens : List Token} {e : Error}
    (h : chainFrom link.op? item left tokens = .error e) :
    Follows (.operand link.item) tokens := by
  cases tokens with
  | nil => exact follows_nil _
  | cons t tokens =>
    cases ht : link.op? t.kind with
    | none =>
      rw [chainFrom] at h
      simp only [ht] at h
      cases h
    | some op => exact follows_cons.2 (joins_of_op? ht).reach_lt

theorem locates_chainFrom (hs : Sound ctx room link.item item) (hi : PlacesAll ctx link.item item)
    (left : Expr α) (tokens : List Token) :
    ∀ e, chainFrom link.op? item left tokens = .error e →
      Locates (.tail link) (tokens ++ [ctx.mark]) e := by
  fun_induction chainFrom link.op? item left tokens with
  | case1 left =>
    intro e h
    cases h
  | case2 left t tokens ht =>
    intro e h
    cases h
  | case3 left t tokens op ht error hr =>
    intro e h
    cases h
    exact ((hi tokens).locates error hr).append_left [t] fun _ h =>
      h.next_item (joins_of_op? ht)
  | case4 left t tokens op ht right rest hlt hr error hc ih =>
    intro e h
    cases h
    -- It fails behind another operator, so the item has been over in front of that.
    obtain ⟨d, rfl⟩ := hs.exists_yield hr
    have hfollows := follows_of_chainFrom_error hc
    have hlocates := (ih error hc).append_left (t :: d.yield) fun hnext h =>
      h.next_tail (joins_of_op? ht) d (hfollows.of_nextKind (hnext.trans (nextKind_mark ctx rest)))
    simpa using hlocates
  | case5 left t tokens op ht right rest hlt hr e' rest' hle hc ih =>
    intro e h
    cases h

/-- The first item has been read before the loop, so it is among the tokens that the rest ends. -/
theorem stops_chainFrom (hi : PlacesAll ctx link.item item) (left : Expr α) (tokens : List Token) :
    ∀ e rest, chainFrom link.op? item left tokens = .ok (e, rest) → ∀ whole,
      Stops (.operand link.item) whole tokens → Stops (.tail link) whole rest.1 := by
  fun_induction chainFrom link.op? item left tokens with
  | case1 left =>
    intro e rest h whole hwhole
    cases h
    exact hwhole.raise fun _ => Phrase.reach_lt_eof _
  | case2 left t tokens ht =>
    intro e rest h whole hwhole
    cases h
    exact hwhole.raise (reach_tail_lt ht)
  | case3 left t tokens op ht error hr =>
    intro e rest h
    cases h
  | case4 left t tokens op ht right rest hlt hr error hc ih =>
    intro e rest h
    cases h
  | case5 left t tokens op ht right rest hlt hr e' rest' hle hc ih =>
    intro e final h whole hwhole
    cases h
    obtain ⟨read, rfl, -⟩ := hwhole
    have hstops := ((hi tokens).stops right ⟨rest, hlt⟩ hr).append_left (read ++ [t])
    refine ih e' ⟨rest', hle⟩ hc _ ?_
    simpa using hstops

theorem places_chain (link : Link) {item : Reader (Expr α)} (hs : Sound ctx room link.item item)
    (hi : PlacesAll ctx link.item item) : PlacesAll ctx link.whole (chain link.op? item) := by
  intro tokens
  unfold chain
  split
  · next e he => exact .error (((hi tokens).locates e he).lift fun _ h => h.of_item)
  · next left rest hlt he =>
    split
    · next e hc =>
      obtain ⟨d, rfl⟩ := hs.exists_yield he
      have hfollows := follows_of_chainFrom_error hc
      have hlocates := (locates_chainFrom hs hi left rest e hc).append_left d.yield fun hnext h =>
        h.of_tail d (hfollows.of_nextKind (hnext.trans (nextKind_mark ctx rest)))
      exact .error (by simpa using hlocates)
    · next e rest' hle hc =>
      have hstops := stops_chainFrom hi left rest e ⟨rest', hle⟩ hc tokens
        ((hi tokens).stops left ⟨rest, hlt⟩ he)
      exact .ok (hstops.raise fun h => by cases link <;> exact h)

theorem places_sum {part : Reader (Expr α)} (hs : Sound ctx room .signed part)
    (hp : PlacesAll ctx .signed part) : PlacesAll ctx .sum (sum part) :=
  places_chain .sum (sound_product hs) (places_chain .product hs hp)

/-! ### Arguments -/

theorem places_arguments {item : Reader (Expr α)} (hs : Sound ctx room .sum item)
    (hi : PlacesAll ctx .sum item) (tokens : List Token) :
    Places ctx .arguments tokens (arguments item tokens) := by
  fun_induction arguments item tokens with
  | case1 tokens error hr =>
    exact .error (((hi tokens).locates error hr).lift fun _ h => h.argument)
  | case2 tokens arg hlt hr =>
    exact .ok (((hi tokens).stops arg ⟨[], hlt⟩ hr).raise fun _ => Phrase.reach_lt_eof _)
  | case3 tokens arg t rest hlt hr ht error ha ih =>
    obtain ⟨d, rfl⟩ := hs.exists_yield hr
    have hlocates := (ih.locates error ha).append_left (q := .arguments) (d.yield ++ [t])
      fun _ h => by simpa using h.more_arguments d ht
    exact .error (by simpa using hlocates)
  | case4 tokens arg t rest hlt hr ht args rest' hlt' ha ih =>
    obtain ⟨read, hread, -⟩ := (hi tokens).stops arg ⟨t :: rest, hlt⟩ hr
    obtain rfl : read ++ t :: rest = tokens := hread
    have hstops := (ih.stops args ⟨rest', hlt'⟩ ha).append_left (read ++ [t])
    exact .ok (by simpa using hstops)
  | case5 tokens arg t rest hlt hr ht =>
    have hnext : nextKind (t :: rest) ≠ .comma := ht
    refine .ok (((hi tokens).stops arg ⟨t :: rest, hlt⟩ hr).raise ?_)
    revert hnext
    generalize nextKind (t :: rest) = kind
    cases kind <;> decide

/-! ### Atoms -/

theorem locates_closedArguments {part : Reader (Expr α)} (hs : Sound ctx room .signed part)
    (hp : PlacesAll ctx .signed part) {f l : Token} (hf : f.kind = .ident)
    (hl : l.kind = .leftParen) {tokens : List Token} {e : Error}
    (h : closedArguments ctx (sum part) tokens = .error e) :
    Locates (.operand .atom) (f :: l :: (tokens ++ [ctx.mark])) e := by
  unfold closedArguments at h
  split at h
  · next hnext =>
    split at h
    · next e' hx => exact absurd hnext (expect_eq_error (by decide) hx).1
    · cases h
  · next hnext =>
    have hplaces := places_arguments (sound_sum hs) (places_sum hs hp) tokens
    split at h
    · next e' ha =>
      cases h
      refine (hplaces.locates e ha).append_left [f, l] fun hread h => ?_
      rw [nextKind_mark] at hread
      exact h.call hf hl (hread ▸ hnext)
    · next args rest hlt ha =>
      split at h
      · next e' hx =>
        cases h
        obtain ⟨hne, rfl⟩ := expect_eq_error (by decide) hx
        have hstops := hplaces.stops args ⟨rest, hlt⟩ ha
        obtain ⟨d, hy, -⟩ := derives_arguments (sound_sum hs) tokens args ⟨rest, hlt⟩ ha
        obtain rfl : d.yield ++ rest = tokens := hy
        rw [List.append_assoc]
        refine locates_unexpected ctx _ (f :: l :: d.yield) rest fun t ht => ?_
        exact Stuck.unclosed_call hf hl (ht ▸ hstops.ends) (ht ▸ hne)
      · cases h

/-- Behind the arguments of a call stands the closing parenthesis. -/
theorem exists_closing {item : Reader (Expr α)} {tokens : List Token} {args : List (Expr α)}
    {rest : { rest : List Token // rest.length < tokens.length }}
    (hs : Sound ctx room .sum item) (h : closedArguments ctx item tokens = .ok (args, rest)) :
    ∃ before r, r.kind = .rightParen ∧ tokens = before ++ r :: rest.1 := by
  obtain ⟨r, hr, ⟨htokens, -⟩ | ⟨mid, ha, hmid⟩⟩ := closedArguments_eq_ok h
  · exact ⟨[], r, hr, htokens⟩
  · obtain ⟨d, hy, -⟩ := derives_arguments hs tokens args mid ha
    exact ⟨d.yield, r, hr, hmid ▸ hy.symm⟩

theorem number_eq_error {text : String} {e : Error}
    (h : (number text : Except Error (Expr α)) = .error e) : e = .badNumber text := by
  unfold number at h
  split at h
  · cases h
  · cases h
    rfl

theorem locates_apply {p : Phrase} {t l : Token} {args : List (Expr α)} {e : Error}
    (ht : t.kind = .ident) (hl : l.kind = .leftParen) (tokens : List Token)
    (h : Parser.apply t args = .error e) : Locates p (t :: l :: tokens) e := by
  rcases apply_eq_error h with ⟨expected, rfl⟩ | rfl
  · trivial
  · exact ⟨[], t, l :: tokens, rfl, ht, rfl, rfl, iff_true_intro hl⟩

theorem places_atom {part : Reader (Expr α)} (hs : Sound ctx room .signed part)
    (hp : PlacesAll ctx .signed part) : PlacesAll ctx .atom (atom ctx part) := by
  intro tokens
  unfold atom
  split
  · exact .error (locates_unexpected ctx _ [] [] fun t ht => stuck_of_start (by rw [ht]; rfl))
  · next t tokens =>
    split
    · next ht =>
      split
      · next e he =>
        obtain rfl := number_eq_error he
        exact .error trivial
      · exact .ok (stops_closed [] (by rw [ht]; rfl) tokens)
    · next ht =>
      split
      · next span text tokens =>
        split
        · next e he => exact .error (locates_closedArguments hs hp ht rfl he)
        · next args rest hlt he =>
          split
          · next e hx => exact .error (locates_apply ht rfl _ hx)
          · obtain ⟨before, r, hr, htokens⟩ := exists_closing (sound_sum hs) he
            obtain rfl : tokens = before ++ r :: rest := htokens
            exact .ok
              (stops_closed (t :: ⟨.leftParen, span, text⟩ :: before) (by rw [hr]; rfl) rest)
      · next hopen =>
        have hnext : nextKind tokens ≠ .leftParen := nextKind_ne (by decide) hopen
        split
        · next e he =>
          obtain rfl := name_eq_error he
          refine .error ⟨[], t, tokens ++ [ctx.mark], rfl, ht, rfl, rfl, ?_⟩
          rw [nextKind_mark]
          exact iff_false_intro hnext
        · exact .ok ⟨[t], rfl, ends_atom hnext⟩
    · next ht =>
      have hplaces := places_sum hs hp tokens
      split
      · next e he =>
        exact .error ((hplaces.locates e he).append_left [t] fun _ h => h.parens ht)
      · next e rest hlt he =>
        have hstops := hplaces.stops e ⟨rest, hlt⟩ he
        obtain ⟨d, rfl⟩ := (sound_sum hs).exists_yield he
        split
        · next e' hx =>
          obtain ⟨hne, rfl⟩ := expect_eq_error (by decide) hx
          have hlocates := locates_unexpected ctx (.token .rightParen) (t :: d.yield) rest
            fun u hu => .unclosed ht (hu ▸ hstops.ends) (hu ▸ hne)
          exact .error (by simpa using hlocates)
        · next rest' hlt' hx =>
          obtain ⟨r, hr, hrest⟩ := eq_cons_of_expect hx
          obtain rfl : rest = r :: rest' := hrest
          exact .ok (stops_closed (t :: d.yield) (by rw [hr]; rfl) rest')
    · next hnumber hident hparen =>
      have hopens : t.kind.opensAtom = false := by
        cases hkind : t.kind <;> first | rfl | contradiction
      exact .error (locates_unexpected ctx _ [] (t :: tokens) fun u hu =>
        stuck_of_start (hu ▸ hopens))

/-! ### Powers and signed parts -/

theorem places_power {part : Reader (Expr α)} (hs : Sound ctx room .signed part)
    (hp : PlacesAll ctx .signed part) : PlacesAll ctx .power (power ctx part) := by
  intro tokens
  have hatom := places_atom hs hp tokens
  unfold power
  split
  · next e he => exact .error ((hatom.locates e he).lift fun _ h => h.base)
  · next base span text rest hlt he =>
    obtain ⟨a, rfl⟩ := (sound_atom hs).exists_yield he
    split
    · next e hx =>
      have hlocates := ((hp rest).locates e hx).append_left (q := .operand .power)
        (a.yield ++ [⟨.caret, span, text⟩]) fun _ h => by simpa using h.exponent a rfl
      exact .error (by simpa using hlocates)
    · next exponent rest' hlt' hx =>
      have hstops := ((hp rest).stops exponent _ hx).append_left
        (a.yield ++ [⟨.caret, span, text⟩])
      exact .ok (by simpa using hstops.raise (q := .operand .power) fun h => h)
  · next base rest hcaret he =>
    have hnext : nextKind rest.1 ≠ .caret := nextKind_ne (by decide) fun span text more hrest =>
      hcaret span text more (hrest ▸ rest.2) (Subtype.ext hrest)
    refine .ok ((hatom.stops base rest he).raise ?_)
    revert hnext
    generalize nextKind rest.1 = kind
    cases kind <;> decide

theorem places_signedWith {part : Reader (Expr α)} (hs : Sound ctx room .signed part)
    (hp : PlacesAll ctx .signed part) : PlacesAll ctx .signed (signedWith ctx part) := by
  intro tokens
  unfold signedWith
  split
  · next span text tokens =>
    have hpart := hp tokens
    split
    · next e he =>
      exact .error ((hpart.locates e he).append_left [⟨.minus, span, text⟩] fun _ h =>
        h.sign (.inl rfl))
    · next e rest hlt he => exact .ok ((hpart.stops e _ he).append_left [⟨.minus, span, text⟩])
  · next span text tokens =>
    have hpart := hp tokens
    split
    · next e he =>
      exact .error ((hpart.locates e he).append_left [⟨.plus, span, text⟩] fun _ h =>
        h.sign (.inr rfl))
    · next e rest hlt he => exact .ok ((hpart.stops e _ he).append_left [⟨.plus, span, text⟩])
  · next hminus hplus =>
    have hpower := places_power hs hp tokens
    have hnext : nextKind tokens ≠ .minus ∧ nextKind tokens ≠ .plus :=
      ⟨nextKind_ne (by decide) hminus, nextKind_ne (by decide) hplus⟩
    rw [← nextKind_mark ctx tokens] at hnext
    exact ⟨fun e he => (hpower.locates e he).lift fun hread h =>
        h.unsigned (hread ▸ hnext.1) (hread ▸ hnext.2),
      fun e rest he => (hpower.stops e rest he).raise fun h => h⟩

theorem places_signed (ctx : Context) (room : Nat) :
    PlacesAll ctx .signed (signed ctx room : Reader (Expr α)) := by
  induction room with
  | zero => exact fun _ => .error trivial
  | succ room ih => exact places_signedWith (sound_signed ctx room) ih

/-! ## Whole texts -/

/-- A text is refused inside the sum that it should be, or for the tokens behind one. -/
theorem parse_eq_error_cases {scope : Scope} {text : String} {e : Error}
    (h : (parse scope text : Except Error (Expr α)) = .error e) :
    Locates (.operand .sum) (tokenize text) e ∨
      ∃ (d : Derivation (.operand .sum)) (t : Token) (rest : List Token),
        tokenize text = d.yield ++ t :: rest ∧ Ends (.operand .sum) d.yield t.kind ∧
          t.kind ≠ .eof ∧ e = .unexpected (.token .eof) t.kind t.span := by
  have hs := sound_signed (α := α) ⟨scope, text.utf8ByteSize⟩ maxDepth
  have hplaces := places_sum hs (places_signed _ maxDepth) (scan text)
  unfold parse parseTokens at h
  split at h
  · next e' he =>
    cases h
    exact .inl (hplaces.locates e he)
  · cases h
  · next e' t rest hlt he =>
    cases h
    obtain ⟨d, hy⟩ := (sound_sum hs).exists_yield he
    have hstops : Stops (.operand .sum) (scan text) (t :: rest) := hplaces.stops _ _ he
    have hmem : t ∈ scan text := hy ▸ List.mem_append_right d.yield List.mem_cons_self
    refine .inr ⟨d, t, rest ++ [endMark text], ?_, (hy ▸ hstops).ends,
      (partitions_scan text).ne_eof t hmem, rfl⟩
    rw [tokenize, hy, List.append_assoc, List.cons_append]

/-- A name among the tokens is spelled in the text at its span. -/
theorem NameAt.slices {text name : String} {span : Span} {called : Prop}
    (h : NameAt (tokenize text) name span called) : span.Slices text name := by
  obtain ⟨before, t, after, htokens, hkind, rfl, rfl, -⟩ := h
  have hmem : t ∈ tokenize text := htokens ▸ List.mem_append_right before List.mem_cons_self
  rcases List.mem_append.1 hmem with hmem | hmem
  · exact (partitions_scan text).slices t hmem
  · obtain rfl := List.mem_singleton.1 hmem
    cases hkind

/-- A text is refused for the first token that is out of place: some formula begins with the tokens
before it, and none with those up to it, where the end mark counts as a token and formulas may be
nested to any depth. A name is reported where it stands in the text, as a symbol if it is not called
there, and as a function if it is. -/
theorem parse_error_place (scope : Scope) (text : String) :
    (∀ expected found span,
      (parse scope text : Except Error (Expr α)) = .error (.unexpected expected found span) →
        ∃ before t after, tokenize text = before ++ t :: after ∧ t.kind = found ∧ t.span = span ∧
          Viable before ∧ ¬ Viable (before ++ [t])) ∧
    (∀ name span,
      (parse scope text : Except Error (Expr α)) = .error (.unknownSymbol name span) →
        span.Slices text name ∧
          ∃ before t after, tokenize text = before ++ t :: after ∧ t.kind = .ident ∧
            t.text = name ∧ t.span = span ∧ nextKind after ≠ .leftParen) ∧
    ∀ name span,
      (parse scope text : Except Error (Expr α)) = .error (.unknownFunction name span) →
        span.Slices text name ∧
          ∃ before t after, tokenize text = before ++ t :: after ∧ t.kind = .ident ∧
            t.text = name ∧ t.span = span ∧ nextKind after = .leftParen := by
  refine ⟨fun expected found span h => ?_, fun name span h => ?_, fun name span h => ?_⟩
  · rcases parse_eq_error_cases h with h | ⟨d, t, rest, htokens, hends, hne, he⟩
    · obtain ⟨before, t, after, htokens, hfound, hspan, h⟩ := h
      exact ⟨before, t, after, htokens, hfound, hspan, h.viable, h.not_viable⟩
    · cases he
      exact ⟨d.yield, t, rest, htokens, rfl, rfl, viable_of_append (List.append_nil _).symm,
        not_viable_of_ends hends hne⟩
  · rcases parse_eq_error_cases h with h | ⟨-, -, -, -, -, -, ⟨⟩⟩
    refine ⟨NameAt.slices h, ?_⟩
    obtain ⟨before, t, after, htokens, hkind, htext, hspan, hcalled⟩ := h
    exact ⟨before, t, after, htokens, hkind, htext, hspan, hcalled.1⟩
  · rcases parse_eq_error_cases h with h | ⟨-, -, -, -, -, -, ⟨⟩⟩
    refine ⟨NameAt.slices h, ?_⟩
    obtain ⟨before, t, after, htokens, hkind, htext, hspan, hcalled⟩ := h
    exact ⟨before, t, after, htokens, hkind, htext, hspan, hcalled.2 trivial⟩

/-- The parenthesis behind a number is one token too many. -/
example : (parse ⟨[]⟩ "2 (3)" : Except Error (Expr α)) =
    .error (.unexpected (.token .eof) .leftParen ⟨2, 3⟩) := by cbv

end Optima.Formula
