import Optima.Proofs.Formula.Grammar

/-!
Formulas have one derivation at most.

* `eq_of_yield_append`: two derivations of a phrase that stand at the front of the same tokens, with
  nothing behind them that goes on with the phrase, are the same.
* `Derivation.yield_injective`: a tree is given by its leaves.
-/

namespace Optima.Formula

/-- The kind of a joining token tells the operation. -/
theorem Joins.op_unique {link : Link} {kind : Kind} {op op' : BinaryOp} (h : Joins link kind op)
    (h' : Joins link kind op') : op = op' := by
  cases h <;> cases h' <;> rfl

/-- A token that joins two items goes on with a chain. -/
theorem Joins.not_follows {link : Link} {t : Token} {op : BinaryOp} (h : Joins link t.kind op)
    (rest : List Token) : ¬ Follows (.tail link) (t :: rest) := by
  rw [follows_cons]
  generalize t.kind = kind at h
  cases h <;> decide

/-- A sign does not open a power. -/
theorem Derivation.cons_ne_yield_append (p : Derivation (.operand .power)) {t : Token}
    (h : t.kind = .minus ∨ t.kind = .plus) (ts rest : List Token) : t :: ts ≠ p.yield ++ rest := by
  obtain ⟨u, us, hu, hk⟩ := p.exists_yield_power
  intro ht
  rw [hu] at ht
  obtain rfl := (List.cons.inj ht).1
  rcases h with h | h <;> simp [h, Kind.opensAtom] at hk

/-- A token of a smaller reach than the phrase goes on with it. -/
theorem not_follows {p : Phrase} {t : Token} {kind : Kind} (ht : t.kind = kind)
    (h : kind.reach ≤ p.reach) (rest : List Token) : ¬ Follows p (t :: rest) := by
  rw [follows_cons, ht]
  exact Nat.not_lt.2 h

theorem kind_eq_of_cons {t t' : Token} {ts ts' : List Token} (h : t :: ts = t' :: ts') :
    t.kind = t'.kind :=
  congrArg Token.kind (List.cons.inj h).1

theorem follows_of_kind {p : Phrase} {t : Token} {kind : Kind} (ht : t.kind = kind)
    (h : p.reach < kind.reach) (rest : List Token) : Follows p (t :: rest) := by
  rw [follows_cons, ht]
  exact h

/-- Arguments do not start with the closing parenthesis. -/
theorem Derivation.cons_ne_arguments (args : Derivation .arguments) {t : Token}
    (h : t.kind = .rightParen) (ts rest : List Token) : t :: ts ≠ args.yield ++ rest :=
  fun ht => args.nextKind_yield_ne rest (ht ▸ h)

theorem eq_of_yield_append {p : Phrase} (d d' : Derivation p) {rest rest' : List Token}
    (hf : Follows p rest) (hf' : Follows p rest') (h : d.yield ++ rest = d'.yield ++ rest') :
    d = d' ∧ rest = rest' := by
  induction d generalizing rest rest' with
  | sum first tail ihf iht =>
    cases d' with
    | sum first' tail' =>
      replace hf : Follows (.tail .sum) rest := hf
      replace hf' : Follows (.tail .sum) rest' := hf'
      simp only [Derivation.yield, List.append_assoc] at h
      obtain ⟨rfl, h₁⟩ := ihf first' (hf.append_tail tail) (hf'.append_tail tail') h
      obtain ⟨rfl, h₂⟩ := iht tail' hf hf' h₁
      exact ⟨rfl, h₂⟩
  | product first tail ihf iht =>
    cases d' with
    | product first' tail' =>
      replace hf : Follows (.tail .product) rest := hf
      replace hf' : Follows (.tail .product) rest' := hf'
      simp only [Derivation.yield, List.append_assoc] at h
      obtain ⟨rfl, h₁⟩ := ihf first' (hf.append_tail tail) (hf'.append_tail tail') h
      obtain ⟨rfl, h₂⟩ := iht tail' hf hf' h₁
      exact ⟨rfl, h₂⟩
  | done =>
    cases d' with
    | done => exact ⟨rfl, h⟩
    | next t op hj item tail =>
      simp only [Derivation.yield, List.nil_append, List.cons_append] at h
      exact absurd (h ▸ hf) (hj.not_follows _)
  | next t op hj item tail ihi iht =>
    cases d' with
    | done =>
      simp only [Derivation.yield, List.nil_append, List.cons_append] at h
      exact absurd (h ▸ hf') (hj.not_follows _)
    | next t' op' hj' item' tail' =>
      simp only [Derivation.yield, List.cons_append, List.append_assoc, List.cons.injEq] at h
      obtain ⟨rfl, h⟩ := h
      obtain rfl := hj.op_unique hj'
      obtain ⟨rfl, h₁⟩ := ihi item' (hf.append_tail tail) (hf'.append_tail tail') h
      obtain ⟨rfl, h₂⟩ := iht tail' hf hf' h₁
      exact ⟨rfl, h₂⟩
  | minus t ht part ih =>
    cases d' with
    | minus t' ht' part' =>
      obtain ⟨rfl, h₁⟩ := List.cons.inj h
      obtain ⟨rfl, h₂⟩ := ih part' hf hf' h₁
      exact ⟨rfl, h₂⟩
    | plus t' ht' part' => exact absurd (kind_eq_of_cons h) (by simp [ht, ht'])
    | unsigned p => exact absurd h (p.cons_ne_yield_append (.inl ht) _ _)
  | plus t ht part ih =>
    cases d' with
    | minus t' ht' part' => exact absurd (kind_eq_of_cons h) (by simp [ht, ht'])
    | plus t' ht' part' =>
      obtain ⟨rfl, h₁⟩ := List.cons.inj h
      obtain ⟨rfl, h₂⟩ := ih part' hf hf' h₁
      exact ⟨rfl, h₂⟩
    | unsigned p => exact absurd h (p.cons_ne_yield_append (.inr ht) _ _)
  | unsigned p ih =>
    cases d' with
    | minus t' ht' part' => exact absurd h.symm (p.cons_ne_yield_append (.inl ht') _ _)
    | plus t' ht' part' => exact absurd h.symm (p.cons_ne_yield_append (.inr ht') _ _)
    | unsigned p' =>
      obtain ⟨rfl, h₁⟩ := ih p' hf hf' h
      exact ⟨rfl, h₁⟩
  | base a ih =>
    have ha : Follows (.operand .atom) rest := hf.mono (by decide)
    cases d' with
    | base a' =>
      obtain ⟨rfl, h₁⟩ := ih a' ha (hf'.mono (by decide)) h
      exact ⟨rfl, h₁⟩
    | raised a' t ht exponent =>
      simp only [Derivation.yield, List.append_assoc, List.cons_append] at h
      obtain ⟨-, h₁⟩ := ih a' ha (follows_of_kind ht (by decide) _) h
      exact absurd (h₁ ▸ hf) (not_follows ht (by decide) _)
  | raised a t ht exponent iha ihe =>
    have ha : Follows (.operand .atom) (t :: (exponent.yield ++ rest)) :=
      follows_of_kind ht (by decide) _
    cases d' with
    | base a' =>
      simp only [Derivation.yield, List.append_assoc, List.cons_append] at h
      obtain ⟨-, h₁⟩ := iha a' ha (hf'.mono (by decide)) h
      exact absurd (h₁ ▸ hf') (not_follows ht (by decide) _)
    | raised a' t' ht' exponent' =>
      simp only [Derivation.yield, List.append_assoc, List.cons_append] at h
      obtain ⟨rfl, h₁⟩ := iha a' ha (follows_of_kind ht' (by decide) _) h
      obtain ⟨rfl, h₂⟩ := List.cons.inj h₁
      obtain ⟨rfl, h₃⟩ := ihe exponent' hf hf' h₂
      exact ⟨rfl, h₃⟩
  | number t ht =>
    cases d' with
    | number t' ht' =>
      obtain ⟨rfl, h₁⟩ := List.cons.inj h
      exact ⟨rfl, h₁⟩
    | _ => exact absurd (kind_eq_of_cons h) (by simp [*])
  | name t ht =>
    cases d' with
    | name t' ht' =>
      obtain ⟨rfl, h₁⟩ := List.cons.inj h
      exact ⟨rfl, h₁⟩
    | call f l args r hf₁ hl hr =>
      obtain rfl := (List.cons.inj h).2
      exact absurd hf (not_follows hl (by decide) _)
    | emptyCall f l r hf₁ hl hr =>
      obtain rfl := (List.cons.inj h).2
      exact absurd hf (not_follows hl (by decide) _)
    | _ => exact absurd (kind_eq_of_cons h) (by simp [*])
  | call f l args r hf₁ hl hr ih =>
    cases d' with
    | name t' ht' =>
      obtain rfl := (List.cons.inj h).2
      exact absurd hf' (not_follows hl (by decide) _)
    | call f' l' args' r' hf₂ hl' hr' =>
      simp only [Derivation.yield, List.cons_append, List.append_assoc, List.cons.injEq,
        List.nil_append] at h
      obtain ⟨rfl, rfl, h⟩ := h
      obtain ⟨rfl, h₁⟩ :=
        ih args' (follows_of_kind hr (by decide) _) (follows_of_kind hr' (by decide) _) h
      obtain ⟨rfl, h₂⟩ := List.cons.inj h₁
      exact ⟨rfl, h₂⟩
    | emptyCall f' l' r' hf₂ hl' hr' =>
      simp only [Derivation.yield, List.cons_append, List.append_assoc, List.cons.injEq,
        List.nil_append] at h
      exact absurd h.2.2.symm (args.cons_ne_arguments hr' _ _)
    | _ => exact absurd (kind_eq_of_cons h) (by simp [*])
  | emptyCall f l r hf₁ hl hr =>
    cases d' with
    | name t' ht' =>
      obtain rfl := (List.cons.inj h).2
      exact absurd hf' (not_follows hl (by decide) _)
    | call f' l' args' r' hf₂ hl' hr' =>
      simp only [Derivation.yield, List.cons_append, List.append_assoc, List.cons.injEq,
        List.nil_append] at h
      exact absurd h.2.2 (args'.cons_ne_arguments hr _ _)
    | emptyCall f' l' r' hf₂ hl' hr' =>
      simp only [Derivation.yield, List.cons_append, List.cons.injEq, List.nil_append] at h
      obtain ⟨rfl, rfl, rfl, h⟩ := h
      exact ⟨rfl, h⟩
    | _ => exact absurd (kind_eq_of_cons h) (by simp [*])
  | parens l e r hl hr ih =>
    cases d' with
    | parens l' e' r' hl' hr' =>
      simp only [Derivation.yield, List.cons_append, List.append_assoc, List.cons.injEq,
        List.nil_append] at h
      obtain ⟨rfl, h⟩ := h
      obtain ⟨rfl, h₁⟩ :=
        ih e' (follows_of_kind hr (by decide) _) (follows_of_kind hr' (by decide) _) h
      obtain ⟨rfl, h₂⟩ := List.cons.inj h₁
      exact ⟨rfl, h₂⟩
    | _ => exact absurd (kind_eq_of_cons h) (by simp [*])
  | last e ih =>
    have he : Follows (.operand .sum) rest := hf.mono (by decide)
    cases d' with
    | last e' =>
      obtain ⟨rfl, h₁⟩ := ih e' he (hf'.mono (by decide)) h
      exact ⟨rfl, h₁⟩
    | comma e' t ht more =>
      simp only [Derivation.yield, List.append_assoc, List.cons_append] at h
      obtain ⟨-, h₁⟩ := ih e' he (follows_of_kind ht (by decide) _) h
      exact absurd (h₁ ▸ hf) (not_follows ht (by decide) _)
  | comma e t ht more ihe ihm =>
    have he : Follows (.operand .sum) (t :: (more.yield ++ rest)) :=
      follows_of_kind ht (by decide) _
    cases d' with
    | last e' =>
      simp only [Derivation.yield, List.append_assoc, List.cons_append] at h
      obtain ⟨-, h₁⟩ := ihe e' he (hf'.mono (by decide)) h
      exact absurd (h₁ ▸ hf') (not_follows ht (by decide) _)
    | comma e' t' ht' more' =>
      simp only [Derivation.yield, List.append_assoc, List.cons_append] at h
      obtain ⟨rfl, h₁⟩ := ihe e' he (follows_of_kind ht' (by decide) _) h
      obtain ⟨rfl, h₂⟩ := List.cons.inj h₁
      obtain ⟨rfl, h₃⟩ := ihm more' hf hf' h₂
      exact ⟨rfl, h₃⟩

theorem Derivation.yield_injective {p : Phrase} {d d' : Derivation p} (h : d.yield = d'.yield) :
    d = d' :=
  (eq_of_yield_append d d' (follows_nil p) (follows_nil p) (congrArg (· ++ []) h)).1

end Optima.Formula
