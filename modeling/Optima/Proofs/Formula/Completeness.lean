import Optima.Proofs.Formula.Grammar

/-!
The parser reads every derivation that fits into the allowed depth, and refuses a deeper one for its
depth alone.

* `Gives`, `Overflows`: the two ways in which reading a derivation can end.
* `meets_chain`, `meets_call`, …: how each reader ends, given how the readers inside it do.
* `completes`: how reading a legible derivation ends is decided by its depth.
-/

namespace Optima.Formula

open Optima.Formula.Parser

/-! ## Ways to end -/

section

variable {β γ : Type} {p : List Token → Prop}

/-- A reading has come to a value and left a rest. -/
def Gives (o : Except Error (β × { rest : List Token // p rest })) (b : β) (rest : List Token) :
    Prop :=
  ∃ h, o = .ok (b, ⟨rest, h⟩)

/-- A reading has been given up since too many signed parts were open. -/
def Overflows (o : Except Error γ) : Prop := ∃ span, o = .error (.tooDeep maxDepth span)

/-- A reading comes to a value if something fits, and is given up for its depth if not. -/
def Meets (fits : Prop) (o : Except Error (β × { rest : List Token // p rest })) (b : β)
    (rest : List Token) : Prop :=
  fits ∧ Gives o b rest ∨ ¬ fits ∧ Overflows o

theorem Meets.congr {fits fits' : Prop} {o : Except Error (β × { rest : List Token // p rest })}
    {b : β} {rest : List Token} (h : Meets fits o b rest) (hf : fits ↔ fits') :
    Meets fits' o b rest := by
  rwa [Meets, ← hf]

end

/-! ## Arguments -/

section

variable {α : Type}

theorem meets_last {item : Reader (Expr α)} {tokens rest : List Token} {e : Expr α} {p : Prop}
    (he : Meets p (item tokens) e rest) (hf : Follows .arguments rest) :
    Meets p (arguments item tokens) [e] rest := by
  rcases he with ⟨hp, h, he⟩ | ⟨hp, s, he⟩
  · refine .inl ⟨hp, h, ?_⟩
    rw [arguments]
    cases rest with
    | nil => simp [he]
    | cons t rest =>
      have ht : t.kind ≠ .comma := by
        intro ht
        simp [follows_cons, Phrase.reach, ht, Kind.reach] at hf
      simp [he, ht]
  · refine .inr ⟨hp, s, ?_⟩
    rw [arguments]
    simp [he]

theorem meets_comma {item : Reader (Expr α)} {tokens rest rest' : List Token} {t : Token}
    {e : Expr α} {es : List (Expr α)} {p q : Prop} (ht : t.kind = .comma)
    (he : Meets p (item tokens) e (t :: rest)) (ha : Meets q (arguments item rest) es rest') :
    Meets (p ∧ q) (arguments item tokens) (e :: es) rest' := by
  rcases he with ⟨hp, h, he⟩ | ⟨hp, s, he⟩
  · rcases ha with ⟨hq, h', ha⟩ | ⟨hq, s, ha⟩
    · refine .inl ⟨⟨hp, hq⟩, by simp at h; omega, ?_⟩
      rw [arguments]
      simp [he, ht, ha]
    · refine .inr ⟨fun hpq => hq hpq.2, s, ?_⟩
      rw [arguments]
      simp [he, ht, ha]
  · refine .inr ⟨fun hpq => hp hpq.1, s, ?_⟩
    rw [arguments]
    simp [he]

end

variable {α : Type} [Scalar α]

/-! ## Chains -/

def Link.op? : Link → Kind → Option BinaryOp
  | sum => sumOp?
  | product => productOp?

theorem Joins.op?_eq {link : Link} {kind : Kind} {op : BinaryOp} (h : Joins link kind op) :
    link.op? kind = some op := by
  cases h <;> rfl

theorem meets_chain {op? : Kind → Option BinaryOp} {item : Reader (Expr α)}
    {tokens rest rest' : List Token} {first e : Expr α} {p q : Prop}
    (hi : Meets p (item tokens) first rest)
    (hc : Meets q (chainFrom op? item first rest) e rest') :
    Meets (p ∧ q) (chain op? item tokens) e rest' := by
  rcases hi with ⟨hp, h, hi⟩ | ⟨hp, span, hi⟩
  · rcases hc with ⟨hq, h', hc⟩ | ⟨hq, span, hc⟩
    · refine .inl ⟨⟨hp, hq⟩, by omega, ?_⟩
      simp [chain, hi, hc]
    · refine .inr ⟨fun hpq => hq hpq.2, span, ?_⟩
      simp [chain, hi, hc]
  · refine .inr ⟨fun hpq => hp hpq.1, span, ?_⟩
    simp [chain, hi]

theorem meets_chainFrom_cons {op? : Kind → Option BinaryOp} {item : Reader (Expr α)} {t : Token}
    {op : BinaryOp} {tokens rest rest' : List Token} {left right e : Expr α} {p q : Prop}
    (hop : op? t.kind = some op) (hi : Meets p (item tokens) right rest)
    (hc : Meets q (chainFrom op? item (Expr.ofBinary left op right) rest) e rest') :
    Meets (p ∧ q) (chainFrom op? item left (t :: tokens)) e rest' := by
  rcases hi with ⟨hp, h, hi⟩ | ⟨hp, span, hi⟩
  · rcases hc with ⟨hq, h', hc⟩ | ⟨hq, span, hc⟩
    · refine .inl ⟨⟨hp, hq⟩, by simp; omega, ?_⟩
      rw [chainFrom]
      simp [hop, hi, hc]
    · refine .inr ⟨fun hpq => hq hpq.2, span, ?_⟩
      rw [chainFrom]
      simp [hop, hi, hc]
  · refine .inr ⟨fun hpq => hp hpq.1, span, ?_⟩
    rw [chainFrom]
    simp [hop, hi]

theorem chainFrom_stops {op? : Kind → Option BinaryOp} {item : Reader (Expr α)}
    {rest : List Token} {left : Expr α} (h : ∀ t ∈ rest.head?, op? t.kind = none) :
    Gives (chainFrom op? item left rest) left rest := by
  cases rest with
  | nil => exact ⟨Nat.le_refl _, by rw [chainFrom]⟩
  | cons t rest =>
    have ht : op? t.kind = none := h t rfl
    refine ⟨Nat.le_refl _, ?_⟩
    rw [chainFrom]
    simp [ht]

theorem op?_eq_none {link : Link} {kind : Kind} (h : (Phrase.tail link).reach < kind.reach) :
    link.op? kind = none := by
  cases link <;> cases kind <;> first | rfl | (simp [Phrase.reach, Kind.reach] at h)

/-! ## Atoms -/

theorem expect_cons (ctx : Context) {t : Token} {kind : Kind} (h : t.kind = kind)
    (rest : List Token) : Gives (expect ctx kind (t :: rest)) () rest :=
  ⟨by simp, by simp [expect, h]⟩

theorem atom_number (ctx : Context) (part : Reader (Expr α)) {t : Token} (h : t.kind = .number)
    (hn : (Decimal.read? t.text.toList).isSome = true) (rest : List Token) :
    Gives (atom ctx part (t :: rest)) (numberImage t.text) rest := by
  obtain ⟨d, hd⟩ := Option.isSome_iff_exists.1 hn
  exact ⟨by simp, by simp [atom, h, number, numberImage, hd]⟩

theorem name_eq_ok {ctx : Context} {t : Token} (hk : Known ctx.scope t.text) :
    Parser.name ctx t = .ok (nameImage ctx.scope t.text : Expr α) := by
  unfold Parser.name nameImage
  rcases hk with hs | hp | he
  · obtain ⟨s, hs⟩ := Option.isSome_iff_exists.1 hs
    simp [hs]
  · cases ctx.scope.find? t.text <;> simp [hp]
  · cases ctx.scope.find? t.text <;> simp [he]

theorem atom_name {ctx : Context} (part : Reader (Expr α)) {t : Token} (h : t.kind = .ident)
    (hk : Known ctx.scope t.text) {rest : List Token} (hf : Follows (.operand .atom) rest) :
    Gives (atom ctx part (t :: rest)) (nameImage ctx.scope t.text) rest := by
  refine ⟨by simp, ?_⟩
  cases rest with
  | nil => simp [atom, h, name_eq_ok hk]
  | cons u rest =>
    have hu : u.kind ≠ .leftParen := by
      intro hu
      simp [follows_cons, Phrase.reach, hu, Kind.reach] at hf
    obtain ⟨kind, span, text⟩ := u
    cases kind <;> simp_all [atom, name_eq_ok hk]

theorem apply_eq_ok {t : Token} {args : List (Expr α)} (h : Takes t.text args.length) :
    Parser.apply t args = .ok (callImage t.text args) := by
  unfold Parser.apply callImage
  rcases h with ⟨hop, hc⟩ | ⟨hpow, hc⟩
  · obtain ⟨op, hop⟩ := Option.isSome_iff_exists.1 hop
    obtain ⟨arg, rfl⟩ := List.length_eq_one_iff.1 hc
    simp [hop]
  · match args, hc with
    | [base, exponent], _ =>
      rw [hpow]
      rfl

theorem meets_call (ctx : Context) {part : Reader (Expr α)} {f l r : Token}
    {tokens rest : List Token} {args : List (Expr α)} {p : Prop} (hf : f.kind = .ident)
    (hl : l.kind = .leftParen) (hr : r.kind = .rightParen) (hn : nextKind tokens ≠ .rightParen)
    (ht : Takes f.text args.length) (ha : Meets p (arguments (sum part) tokens) args (r :: rest)) :
    Meets p (atom ctx part (f :: l :: tokens)) (callImage f.text args) rest := by
  obtain ⟨kind, span, text⟩ := l
  obtain rfl : kind = .leftParen := hl
  rcases ha with ⟨hp, h, ha⟩ | ⟨hp, s, ha⟩
  · obtain ⟨h', he⟩ := expect_cons ctx hr rest
    refine .inl ⟨hp, by simp at h h' ⊢; omega, ?_⟩
    simp [atom, hf, closedArguments, hn, ha, he, apply_eq_ok ht]
  · exact .inr ⟨hp, s, by simp [atom, hf, closedArguments, hn, ha]⟩

theorem meets_parens {ctx : Context} {part : Reader (Expr α)} {l r : Token}
    {tokens rest : List Token} {e : Expr α} {p : Prop} (hl : l.kind = .leftParen)
    (hr : r.kind = .rightParen) (he : Meets p (sum part tokens) e (r :: rest)) :
    Meets p (atom ctx part (l :: tokens)) e rest := by
  rcases he with ⟨hp, h, he⟩ | ⟨hp, s, he⟩
  · obtain ⟨h', hx⟩ := expect_cons ctx hr rest
    refine .inl ⟨hp, by simp at h h' ⊢; omega, ?_⟩
    simp [atom, hl, he, hx]
  · exact .inr ⟨hp, s, by simp [atom, hl, he]⟩

/-! ## Powers and signed parts -/

theorem meets_base {ctx : Context} {part : Reader (Expr α)} {tokens rest : List Token}
    {e : Expr α} {p : Prop} (ha : Meets p (atom ctx part tokens) e rest)
    (hf : Follows (.operand .power) rest) : Meets p (power ctx part tokens) e rest := by
  rcases ha with ⟨hp, h, ha⟩ | ⟨hp, s, ha⟩
  · refine .inl ⟨hp, h, ?_⟩
    cases rest with
    | nil => simp [power, ha]
    | cons t rest =>
      have ht : t.kind ≠ .caret := by
        intro ht
        simp [follows_cons, Phrase.reach, ht, Kind.reach] at hf
      obtain ⟨kind, span, text⟩ := t
      cases kind <;> simp_all [power]
  · exact .inr ⟨hp, s, by simp [power, ha]⟩

theorem meets_raised {ctx : Context} {part : Reader (Expr α)} {tokens rest rest' : List Token}
    {t : Token} {base exponent : Expr α} {p q : Prop} (ht : t.kind = .caret)
    (ha : Meets p (atom ctx part tokens) base (t :: rest))
    (he : Meets q (part rest) exponent rest') :
    Meets (p ∧ q) (power ctx part tokens) (Expr.ofBinary base .pow exponent) rest' := by
  obtain ⟨kind, span, text⟩ := t
  obtain rfl : kind = .caret := ht
  rcases ha with ⟨hp, h, ha⟩ | ⟨hp, s, ha⟩
  · rcases he with ⟨hq, h', he⟩ | ⟨hq, s, he⟩
    · exact .inl ⟨⟨hp, hq⟩, by simp at h; omega, by simp [power, ha, he]⟩
    · exact .inr ⟨fun hpq => hq hpq.2, s, by simp [power, ha, he]⟩
  · exact .inr ⟨fun hpq => hp hpq.1, s, by simp [power, ha]⟩

theorem meets_minus {ctx : Context} {part : Reader (Expr α)} {t : Token}
    {tokens rest : List Token} {e : Expr α} {p : Prop} (ht : t.kind = .minus)
    (he : Meets p (part tokens) e rest) :
    Meets p (signedWith ctx part (t :: tokens)) (Expr.ofUnary .neg e) rest := by
  obtain ⟨kind, span, text⟩ := t
  obtain rfl : kind = .minus := ht
  rcases he with ⟨hp, h, he⟩ | ⟨hp, s, he⟩
  · exact .inl ⟨hp, by simp; omega, by simp [signedWith, he]⟩
  · exact .inr ⟨hp, s, by simp [signedWith, he]⟩

theorem meets_plus {ctx : Context} {part : Reader (Expr α)} {t : Token}
    {tokens rest : List Token} {e : Expr α} {p : Prop} (ht : t.kind = .plus)
    (he : Meets p (part tokens) e rest) : Meets p (signedWith ctx part (t :: tokens)) e rest := by
  obtain ⟨kind, span, text⟩ := t
  obtain rfl : kind = .plus := ht
  rcases he with ⟨hp, h, he⟩ | ⟨hp, s, he⟩
  · exact .inl ⟨hp, by simp; omega, by simp [signedWith, he]⟩
  · exact .inr ⟨hp, s, by simp [signedWith, he]⟩

/-- In front of a power there is no sign left to read. -/
theorem signedWith_yield (ctx : Context) (part : Reader (Expr α))
    (p : Derivation (.operand .power)) (rest : List Token) :
    signedWith ctx part (p.yield ++ rest) = power ctx part (p.yield ++ rest) := by
  obtain ⟨⟨kind, span, text⟩, ts, ht, hk⟩ := p.exists_yield_power
  rw [ht]
  cases kind <;> first | rfl | (simp [Kind.opensAtom] at hk)

/-! ## Derivations -/

/-- Every number token among the tokens reads as a number. -/
def Numerals (tokens : List Token) : Prop :=
  ∀ t ∈ tokens, t.kind = .number → (Decimal.read? t.text.toList).isSome = true

theorem numerals_append {ts us : List Token} :
    Numerals (ts ++ us) ↔ Numerals ts ∧ Numerals us := by
  simp only [Numerals, List.mem_append, or_imp, forall_and]

theorem numerals_cons {t : Token} {ts : List Token} :
    Numerals (t :: ts) ↔
      (t.kind = .number → (Decimal.read? t.text.toList).isSome = true) ∧ Numerals ts := by
  simp only [Numerals, List.forall_mem_cons]

/-- How a phrase that stands for an expression is read, given how signed parts are. -/
def operandReader (ctx : Context) (part : Reader (Expr α)) : Operand → Reader (Expr α)
  | .sum => sum part
  | .product => chain productOp? part
  | .signed => part
  | .power => power ctx part
  | .atom => atom ctx part

/-- Reading a derivation with signed parts read in some room ends by its depth: the value is its
image if it is not deeper. -/
def Completes (ctx : Context) (α : Type) [Scalar α] : {p : Phrase} → Derivation p → Prop
  | .operand o, d => ∀ room rest, Follows (.operand o) rest →
      Meets (d.depth ≤ room)
        (operandReader ctx (signed ctx room) o (d.yield ++ rest) : Outcome (Expr α) _)
        (d.image ctx.scope) rest
  | .tail link, d => ∀ room rest (left : Expr α), Follows (.tail link) rest →
      Meets (d.depth ≤ room)
        (chainFrom link.op? (operandReader ctx (signed ctx room) link.item) left (d.yield ++ rest))
        (joined left (d.image ctx.scope)) rest
  | .arguments, d => ∀ room rest, Follows .arguments rest →
      Meets (d.depth ≤ room)
        (arguments (sum (signed ctx room)) (d.yield ++ rest) : Outcome (List (Expr α)) _)
        (d.image ctx.scope) rest

theorem completes (ctx : Context) {p : Phrase} (d : Derivation p) (hl : d.Legible ctx.scope)
    (hn : Numerals d.yield) : Completes ctx α d := by
  induction d with
  | sum first tail ihf iht =>
    intro room rest (hf : Follows (.tail .sum) rest)
    obtain ⟨hn₁, hn₂⟩ := numerals_append.1 hn
    have h₁ := ihf hl.1 hn₁ room (tail.yield ++ rest) (hf.append_tail tail)
    have h₂ := iht hl.2 hn₂ room rest (first.image ctx.scope) hf
    rw [Derivation.yield, List.append_assoc]
    exact (meets_chain h₁ h₂).congr Nat.max_le.symm
  | product first tail ihf iht =>
    intro room rest (hf : Follows (.tail .product) rest)
    obtain ⟨hn₁, hn₂⟩ := numerals_append.1 hn
    have h₁ := ihf hl.1 hn₁ room (tail.yield ++ rest) (hf.append_tail tail)
    have h₂ := iht hl.2 hn₂ room rest (first.image ctx.scope) hf
    rw [Derivation.yield, List.append_assoc]
    exact (meets_chain h₁ h₂).congr Nat.max_le.symm
  | done =>
    intro room rest left hf
    exact .inl ⟨Nat.zero_le _, chainFrom_stops fun t ht => op?_eq_none (hf t ht)⟩
  | @next link t op h item tail ihi iht =>
    intro room rest left hf
    obtain ⟨hn₁, hn₂⟩ := numerals_append.1 (numerals_cons.1 hn).2
    have h₁ := ihi hl.1 hn₁ room (tail.yield ++ rest) (hf.append_tail tail)
    have h₂ := iht hl.2 hn₂ room rest (Expr.ofBinary left op (item.image ctx.scope)) hf
    rw [Derivation.yield, List.cons_append, List.cons_append, List.append_assoc]
    exact (meets_chainFrom_cons h.op?_eq h₁ h₂).congr Nat.max_le.symm
  | minus t h part ih =>
    intro room rest hf
    cases room with
    | zero => exact .inr ⟨by simp [Derivation.depth], _, rfl⟩
    | succ room =>
      exact (meets_minus h (ih hl (numerals_cons.1 hn).2 room rest hf)).congr
        Nat.succ_le_succ_iff.symm
  | plus t h part ih =>
    intro room rest hf
    cases room with
    | zero => exact .inr ⟨by simp [Derivation.depth], _, rfl⟩
    | succ room =>
      exact (meets_plus h (ih hl (numerals_cons.1 hn).2 room rest hf)).congr
        Nat.succ_le_succ_iff.symm
  | unsigned p ih =>
    intro room rest hf
    cases room with
    | zero => exact .inr ⟨by simp [Derivation.depth], _, rfl⟩
    | succ room =>
      have h := (ih hl hn room rest hf).congr Nat.succ_le_succ_iff.symm
      simp only [operandReader, signed, Derivation.yield] at h ⊢
      rw [signedWith_yield]
      exact h
  | base a ih =>
    intro room rest hf
    exact meets_base (ih hl hn room rest (hf.mono (by decide))) hf
  | raised a t h exponent iha ihe =>
    intro room rest hf
    obtain ⟨hn₁, hn₂⟩ := numerals_append.1 hn
    have ht : Follows (.operand .atom) (t :: (exponent.yield ++ rest)) := by
      rw [follows_cons, h]
      decide
    have h₁ := iha hl.1 hn₁ room (t :: (exponent.yield ++ rest)) ht
    have h₂ := ihe hl.2 (numerals_cons.1 hn₂).2 room rest (hf.mono (by decide))
    rw [Derivation.yield, List.append_assoc, List.cons_append]
    exact (meets_raised h h₁ h₂).congr Nat.max_le.symm
  | number t h =>
    intro room rest hf
    exact .inl ⟨Nat.zero_le _, atom_number ctx _ h ((numerals_cons.1 hn).1 h) rest⟩
  | name t h =>
    intro room rest hf
    exact .inl ⟨Nat.zero_le _, atom_name _ h hl hf⟩
  | call f l args r hf hl' hr ih =>
    intro room rest hfo
    have hn' := (numerals_append.1 (numerals_cons.1 (numerals_cons.1 hn).2).2).1
    have hf' : Follows .arguments (r :: rest) := by
      rw [follows_cons, hr]
      decide
    have hc : Takes f.text (args.image ctx.scope : List (Expr α)).length := by
      rw [Derivation.length_image]
      exact hl.1
    have h := meets_call ctx hf hl' hr (args.nextKind_yield_ne (r :: rest)) hc
      (ih hl.2 hn' room (r :: rest) hf')
    rw [Derivation.yield, List.cons_append, List.cons_append, List.append_assoc]
    exact h
  | emptyCall f l r hf hl' hr => exact absurd hl (not_takes_zero f.text)
  | parens l e r hl' hr ih =>
    intro room rest hf
    have hn' := (numerals_append.1 (numerals_cons.1 hn).2).1
    have hf' : Follows (.operand .sum) (r :: rest) := by
      rw [follows_cons, hr]
      decide
    rw [Derivation.yield, List.cons_append, List.cons_append, List.append_assoc]
    exact meets_parens hl' hr (ih hl hn' room (r :: rest) hf')
  | last e ih =>
    intro room rest hf
    exact meets_last (ih hl hn room rest (hf.mono (by decide))) hf
  | comma e t h rest ihe ihr =>
    intro room rest' hf
    obtain ⟨hn₁, hn₂⟩ := numerals_append.1 hn
    have ht : Follows (.operand .sum) (t :: (rest.yield ++ rest')) := by
      rw [follows_cons, h]
      decide
    have h₁ := ihe hl.1 hn₁ room (t :: (rest.yield ++ rest')) ht
    have h₂ := ihr hl.2 (numerals_cons.1 hn₂).2 room rest' hf
    rw [Derivation.yield, List.append_assoc, List.cons_append]
    exact (meets_comma h h₁ h₂).congr Nat.max_le.symm

end Optima.Formula
