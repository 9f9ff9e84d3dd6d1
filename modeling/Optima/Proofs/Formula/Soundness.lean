import Optima.Proofs.Formula.Grammar

/-!
What the parser reads has a derivation.

* `Derives`: a derivation of a phrase stands at the front of some tokens.
* `Sound`: a reader only comes to values that derive.
* `sound_product`, `sound_atom`, `sound_power`: the readers are sound if that of signed parts is.
* `sound_signed`: it is, at every depth.
-/

namespace Optima.Formula

open Optima.Formula.Parser

variable {α : Type} [Scalar α]

/-- A derivation that is not deeper than `room` stands for `v` and leaves `rest` of the tokens. -/
def Derives (ctx : Context) (room : Nat) (p : Phrase) (tokens : List Token) (v : Value α p)
    (rest : List Token) : Prop :=
  ∃ d : Derivation p, d.yield ++ rest = tokens ∧ d.depth ≤ room ∧ d.Legible ctx.scope ∧
    d.image ctx.scope = v

def Sound (ctx : Context) (room : Nat) (o : Operand) (reader : Reader (Expr α)) : Prop :=
  ∀ tokens e rest, reader tokens = .ok (e, rest) →
    Derives ctx room (.operand o) tokens e rest.1

/-! ## Chains -/

theorem joins_of_sumOp? {kind : Kind} {op : BinaryOp} (h : sumOp? kind = some op) :
    Joins .sum kind op := by
  cases kind <;> cases h <;> constructor

theorem joins_of_productOp? {kind : Kind} {op : BinaryOp} (h : productOp? kind = some op) :
    Joins .product kind op := by
  cases kind <;> cases h <;> constructor

theorem derives_tail {ctx : Context} {room : Nat} {link : Link} {op? : Kind → Option BinaryOp}
    {item : Reader (Expr α)} (hop : ∀ {kind op}, op? kind = some op → Joins link kind op)
    (hi : Sound ctx room link.item item) (left : Expr α) (tokens : List Token) :
    ∀ e rest, chainFrom op? item left tokens = .ok (e, rest) →
      ∃ v, Derives ctx room (.tail link) tokens v rest.1 ∧ joined left v = e := by
  fun_induction chainFrom op? item left tokens with
  | case1 left =>
    intro e rest h
    cases h
    exact ⟨[], ⟨.done, rfl, Nat.zero_le _, trivial, rfl⟩, rfl⟩
  | case2 left t tokens ht =>
    intro e rest h
    cases h
    exact ⟨[], ⟨.done, rfl, Nat.zero_le _, trivial, rfl⟩, rfl⟩
  | case3 left t tokens op ht error hr =>
    intro e rest h
    cases h
  | case4 left t tokens op ht right rest hlt hr error hc =>
    intro e rest h
    cases h
  | case5 left t tokens op ht right rest hlt hr e' rest' hle hc ih =>
    intro e final h
    cases h
    obtain ⟨item, hy, hd, hl, rfl⟩ := hi tokens right ⟨rest, hlt⟩ hr
    obtain ⟨v, ⟨tail, hy', hd', hl', rfl⟩, he⟩ := ih e' ⟨rest', hle⟩ hc
    refine ⟨(op, item.image ctx.scope) :: tail.image ctx.scope,
      ⟨.next t op (hop ht) item tail, ?_, Nat.max_le.2 ⟨hd, hd'⟩, ⟨hl, hl'⟩, rfl⟩, he⟩
    rw [Derivation.yield, List.cons_append, List.cons_append, List.append_assoc, hy', hy]

theorem derives_chain {ctx : Context} {room : Nat} {link : Link} {op? : Kind → Option BinaryOp}
    {item : Reader (Expr α)} (hop : ∀ {kind op}, op? kind = some op → Joins link kind op)
    (hi : Sound ctx room link.item item) {tokens : List Token} {e : Expr α}
    {rest : { rest : List Token // rest.length < tokens.length }}
    (h : chain op? item tokens = .ok (e, rest)) :
    ∃ first v mid, Derives ctx room (.operand link.item) tokens first mid ∧
      Derives ctx room (.tail link) mid v rest.1 ∧ joined first v = e := by
  unfold chain at h
  split at h
  · cases h
  · next first mid hlt hf =>
    split at h
    · cases h
    · next e' rest' hle hc =>
      cases h
      obtain ⟨v, hv, he⟩ := derives_tail hop hi first mid e ⟨rest', hle⟩ hc
      exact ⟨first, v, mid, hi tokens first ⟨mid, hlt⟩ hf, hv, he⟩

theorem sound_product {ctx : Context} {room : Nat} {part : Reader (Expr α)}
    (hp : Sound ctx room .signed part) : Sound ctx room .product (chain productOp? part) := by
  intro tokens e rest h
  obtain ⟨_, _, mid, ⟨first, hy, hd, hl, rfl⟩, ⟨tail, hy', hd', hl', rfl⟩, he⟩ :=
    derives_chain joins_of_productOp? hp h
  refine ⟨.product first tail, ?_, Nat.max_le.2 ⟨hd, hd'⟩, ⟨hl, hl'⟩, he⟩
  show (first.yield ++ tail.yield) ++ rest.1 = tokens
  rw [List.append_assoc, hy', hy]

theorem sound_sum {ctx : Context} {room : Nat} {part : Reader (Expr α)}
    (hp : Sound ctx room .signed part) : Sound ctx room .sum (sum part) := by
  intro tokens e rest h
  obtain ⟨_, _, mid, ⟨first, hy, hd, hl, rfl⟩, ⟨tail, hy', hd', hl', rfl⟩, he⟩ :=
    derives_chain joins_of_sumOp? (sound_product hp) h
  refine ⟨.sum first tail, ?_, Nat.max_le.2 ⟨hd, hd'⟩, ⟨hl, hl'⟩, he⟩
  show (first.yield ++ tail.yield) ++ rest.1 = tokens
  rw [List.append_assoc, hy', hy]

/-! ## Arguments -/

theorem derives_arguments {ctx : Context} {room : Nat} {item : Reader (Expr α)}
    (hi : Sound ctx room .sum item) (tokens : List Token) :
    ∀ args rest, arguments item tokens = .ok (args, rest) →
      Derives ctx room .arguments tokens args rest.1 := by
  fun_induction arguments item tokens with
  | case1 tokens error hr =>
    intro args rest h
    cases h
  | case2 tokens arg hlt hr =>
    intro args rest h
    cases h
    obtain ⟨e, hy, hd, hl, rfl⟩ := hi tokens arg ⟨[], hlt⟩ hr
    exact ⟨.last e, hy, hd, hl, rfl⟩
  | case3 tokens arg t rest hlt hr ht error ha ih =>
    intro args rest h
    cases h
  | case4 tokens arg t rest hlt hr ht args rest' hlt' ha ih =>
    intro args' final h
    cases h
    obtain ⟨e, hy, hd, hl, rfl⟩ := hi tokens arg ⟨t :: rest, hlt⟩ hr
    obtain ⟨more, hy', hd', hl', rfl⟩ := ih args ⟨rest', hlt'⟩ ha
    refine ⟨.comma e t ht more, ?_, Nat.max_le.2 ⟨hd, hd'⟩, ⟨hl, hl'⟩, rfl⟩
    rw [Derivation.yield, List.append_assoc, List.cons_append, hy', hy]
  | case5 tokens arg t rest hlt hr ht =>
    intro args final h
    cases h
    obtain ⟨e, hy, hd, hl, rfl⟩ := hi tokens arg ⟨t :: rest, hlt⟩ hr
    exact ⟨.last e, hy, hd, hl, rfl⟩

/-! ## Atoms -/

theorem eq_cons_of_expect {ctx : Context} {kind : Kind} {tokens : List Token} {u : Unit}
    {rest : { rest : List Token // rest.length < tokens.length }}
    (h : expect ctx kind tokens = .ok (u, rest)) : ∃ t, t.kind = kind ∧ tokens = t :: rest.1 := by
  unfold expect at h
  split at h
  · split at h
    · next t rest' ht =>
      cases h
      exact ⟨t, ht, rfl⟩
    · cases h
  · cases h

omit [Scalar α] in
/-- The arguments of a call that is closed: there are none, or they have been read. -/
theorem closedArguments_eq_ok {ctx : Context} {item : Reader (Expr α)} {tokens : List Token}
    {args : List (Expr α)} {rest : { rest : List Token // rest.length < tokens.length }}
    (h : closedArguments ctx item tokens = .ok (args, rest)) :
    ∃ r, r.kind = .rightParen ∧
      (tokens = r :: rest.1 ∧ args = [] ∨
        ∃ mid, arguments item tokens = .ok (args, mid) ∧ mid.1 = r :: rest.1) := by
  unfold closedArguments at h
  split at h
  · split at h
    · cases h
    · next hx =>
      cases h
      obtain ⟨r, hr, htokens⟩ := eq_cons_of_expect hx
      exact ⟨r, hr, .inl ⟨htokens, rfl⟩⟩
  · split at h
    · cases h
    · next args' mid hlt ha =>
      split at h
      · cases h
      · next rest' hlt' hx =>
        cases h
        obtain ⟨r, hr, hmid⟩ := eq_cons_of_expect hx
        exact ⟨r, hr, .inr ⟨⟨mid, hlt⟩, ha, hmid⟩⟩

theorem numberImage_of_number {text : String} {e : Expr α} (h : number text = .ok e) :
    numberImage text = e := by
  unfold number at h
  split at h
  · next d hd =>
    cases h
    simp [numberImage, hd]
  · cases h

theorem known_of_name {ctx : Context} {t : Token} {e : Expr α} (h : Parser.name ctx t = .ok e) :
    Known ctx.scope t.text ∧ nameImage ctx.scope t.text = e := by
  unfold Parser.name at h
  split at h
  · next s hs =>
    cases h
    exact ⟨.inl (by simp [hs]), by simp [nameImage, hs]⟩
  · next hs =>
    split at h
    · next hp =>
      cases h
      rw [hp] at hs
      exact ⟨.inr (.inl hp), by simp [nameImage, hp, hs]⟩
    · next hp =>
      split at h
      · next he =>
        cases h
        exact ⟨.inr (.inr he), by simp [nameImage, hs, hp]⟩
      · cases h

theorem takes_of_apply {t : Token} {args : List (Expr α)} {e : Expr α}
    (h : Parser.apply t args = .ok e) :
    Takes t.text args.length ∧ callImage t.text args = e := by
  unfold Parser.apply at h
  split at h
  · next op hop =>
    split at h
    · cases h
      exact ⟨.inl ⟨by simp [hop], rfl⟩, by simp [callImage, hop]⟩
    · cases h
  · next hop =>
    split at h
    · next hpow =>
      split at h
      · cases h
        exact ⟨.inr ⟨hpow, rfl⟩, by simp [callImage, hop]⟩
      · cases h
    · cases h

theorem name_eq_error {ctx : Context} {t : Token} {e : Error}
    (h : (Parser.name ctx t : Except Error (Expr α)) = .error e) :
    e = .unknownSymbol t.text t.span := by
  unfold Parser.name at h
  repeat' split at h
  all_goals cases h
  rfl

theorem apply_eq_error {t : Token} {args : List (Expr α)} {e : Error}
    (h : Parser.apply t args = .error e) :
    (∃ expected, e = .wrongArity t.text expected args.length) ∨
      e = .unknownFunction t.text t.span := by
  unfold Parser.apply at h
  repeat' split at h
  all_goals cases h
  · exact .inl ⟨1, rfl⟩
  · exact .inl ⟨2, rfl⟩
  · exact .inr rfl

theorem derives_call {ctx : Context} {room : Nat} {part : Reader (Expr α)}
    (hp : Sound ctx room .signed part) {f l : Token} (hf : f.kind = .ident)
    (hl : l.kind = .leftParen) {tokens : List Token} {args : List (Expr α)}
    {rest : { rest : List Token // rest.length < tokens.length }}
    (h : closedArguments ctx (sum part) tokens = .ok (args, rest))
    (hc : Takes f.text args.length) :
    Derives ctx room (.operand .atom) (f :: l :: tokens) (callImage f.text args) rest.1 := by
  obtain ⟨r, hr, ⟨-, rfl⟩ | ⟨mid, ha, hmid⟩⟩ := closedArguments_eq_ok h
  · exact absurd hc (not_takes_zero f.text)
  · obtain ⟨d, hy, hd, hl', rfl⟩ := derives_arguments (sound_sum hp) _ _ _ ha
    have hyr : d.yield ++ r :: rest.1 = tokens := hmid ▸ hy
    rw [Derivation.length_image] at hc
    refine ⟨.call f l d r hf hl hr, ?_, hd, ⟨hc, hl'⟩, rfl⟩
    simpa [Derivation.yield] using hyr

theorem sound_atom {ctx : Context} {room : Nat} {part : Reader (Expr α)}
    (hp : Sound ctx room .signed part) : Sound ctx room .atom (atom ctx part) := by
  intro tokens e rest h
  unfold atom at h
  split at h
  · cases h
  · next t tokens =>
    split at h
    · next ht =>
      split at h
      · cases h
      · next e' hn =>
        cases h
        exact ⟨.number t ht, rfl, Nat.zero_le _, trivial, numberImage_of_number hn⟩
    · next ht =>
      split at h
      · next span text tokens' =>
        split at h
        · cases h
        · next args mid hlt ha =>
          split at h
          · cases h
          · next e' hx =>
            cases h
            obtain ⟨hc, rfl⟩ := takes_of_apply hx
            exact derives_call hp ht rfl ha hc
      · split at h
        · cases h
        · next e' hn =>
          cases h
          obtain ⟨hk, he⟩ := known_of_name hn
          exact ⟨.name t ht, rfl, Nat.zero_le _, hk, he⟩
    · next ht =>
      split at h
      · cases h
      · next e' mid hlt hs =>
        split at h
        · cases h
        · next u rest' hlt' hx =>
          cases h
          obtain ⟨d, hy, hd, hl, he⟩ := sound_sum hp _ _ _ hs
          obtain ⟨r, hr, hmid⟩ := eq_cons_of_expect hx
          have hyr : d.yield ++ r :: rest' = tokens := hmid ▸ hy
          refine ⟨.parens t d r ht hr, ?_, hd, hl, he⟩
          simpa [Derivation.yield] using hyr
    · cases h

/-! ## Powers and signed parts -/

theorem sound_power {ctx : Context} {room : Nat} {part : Reader (Expr α)}
    (hp : Sound ctx room .signed part) : Sound ctx room .power (power ctx part) := by
  intro tokens e rest h
  unfold power at h
  split at h
  · cases h
  · next base span text mid hlt ha =>
    split at h
    · cases h
    · next exponent rest' hlt' he =>
      cases h
      obtain ⟨a, hy, hd, hl, rfl⟩ := sound_atom hp _ _ _ ha
      obtain ⟨s, hy', hd', hl', rfl⟩ := hp _ _ _ he
      refine ⟨.raised a ⟨.caret, span, text⟩ rfl s, ?_, Nat.max_le.2 ⟨hd, hd'⟩, ⟨hl, hl'⟩, rfl⟩
      rw [Derivation.yield, List.append_assoc, List.cons_append, hy', hy]
  · next base mid hc ha =>
    cases h
    obtain ⟨a, hy, hd, hl, he⟩ := sound_atom hp _ _ _ ha
    exact ⟨.base a, hy, hd, hl, he⟩

theorem sound_signedWith {ctx : Context} {room : Nat} {part : Reader (Expr α)}
    (hp : Sound ctx room .signed part) : Sound ctx (room + 1) .signed (signedWith ctx part) := by
  intro tokens e rest h
  unfold signedWith at h
  split at h
  · next span text tokens =>
    split at h
    · cases h
    · next e' rest' hlt he =>
      cases h
      obtain ⟨s, hy, hd, hl, rfl⟩ := hp _ _ _ he
      exact ⟨.minus ⟨.minus, span, text⟩ rfl s, congrArg _ hy, Nat.succ_le_succ hd, hl, rfl⟩
  · next span text tokens =>
    split at h
    · cases h
    · next e' rest' hlt he =>
      cases h
      obtain ⟨s, hy, hd, hl, rfl⟩ := hp _ _ _ he
      exact ⟨.plus ⟨.plus, span, text⟩ rfl s, congrArg _ hy, Nat.succ_le_succ hd, hl, rfl⟩
  · obtain ⟨p, hy, hd, hl, he⟩ := sound_power hp _ _ _ h
    exact ⟨.unsigned p, hy, Nat.succ_le_succ hd, hl, he⟩

theorem sound_signed (ctx : Context) (room : Nat) :
    Sound ctx room .signed (signed ctx room : Reader (Expr α)) := by
  induction room with
  | zero =>
    intro tokens e rest h
    cases h
  | succ room ih => exact sound_signedWith ih

end Optima.Formula
