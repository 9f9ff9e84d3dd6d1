import Mathlib.Data.List.Chain
import Optima.Proofs.Formula.Unambiguity

/-!
Tokens that a phrase can begin with, and tokens that end every attempt at one.

* `isChain_yield`: inside a phrase, no opening parenthesis stands behind a number or behind a
  closing parenthesis.
* `Ends`: a phrase is over in front of a token of some kind; `eq_of_ends`: then no other derivation
  gets past that token.
* `Stuck`: a phrase can begin with the tokens read so far, but not go on with the next one.
* `Stuck.of_item`, `Stuck.parens`, …: an outer phrase is stuck where an inner one is.
* `Stuck.unclosed`, `stuck_of_start`, …: the places where a phrase misses a token of its own.
* `Viable`: some formula begins with the tokens; `Stuck.not_viable`: none gets past the token that a
  sum is stuck at.
-/

namespace Optima.Formula

open Optima.Formula.Parser (nextKind)

/-! ## Neighbours -/

/-- No opening parenthesis goes on with a token of the kind. -/
def Kind.closesAtom : Kind → Bool
  | .number | .rightParen => true
  | _ => false

/-- The second token can stand behind the first one. -/
def Adjoins (t u : Token) : Prop := t.kind.closesAtom = true → u.kind ≠ .leftParen

theorem isChain_append_of_follows {ts us : List Token} (ht : ts.IsChain Adjoins)
    (hu : us.IsChain Adjoins) (hf : Follows (.operand .atom) us) : (ts ++ us).IsChain Adjoins := by
  refine ht.append hu fun t _ u hus _ hk => ?_
  have hreach := hf u hus
  rw [hk] at hreach
  exact absurd hreach (by decide)

theorem isChain_cons_of_kind {t : Token} {kind : Kind} {ts : List Token} (ht : t.kind = kind)
    (hk : kind.closesAtom = false) (h : ts.IsChain Adjoins) : (t :: ts).IsChain Adjoins :=
  h.cons fun _ _ hc => absurd (ht ▸ hc) (by simp [hk])

theorem Joins.closesAtom_eq {link : Link} {kind : Kind} {op : BinaryOp} (h : Joins link kind op) :
    kind.closesAtom = false := by
  cases h <;> rfl

theorem follows_tail {link : Link} (tail : Derivation (.tail link)) :
    Follows (.operand .atom) tail.yield := by
  have h := (follows_nil (.tail link)).append_tail tail
  rw [List.append_nil] at h
  exact h.mono (by cases link <;> decide)

theorem isChain_yield {p : Phrase} (d : Derivation p) : d.yield.IsChain Adjoins := by
  induction d with
  | sum first tail ihf iht => exact isChain_append_of_follows ihf iht (follows_tail tail)
  | product first tail ihf iht => exact isChain_append_of_follows ihf iht (follows_tail tail)
  | done => exact .nil
  | next t op h item tail ihi iht =>
    exact isChain_append_of_follows (isChain_cons_of_kind rfl h.closesAtom_eq ihi) iht
      (follows_tail tail)
  | minus t h part ih => exact isChain_cons_of_kind h rfl ih
  | plus t h part ih => exact isChain_cons_of_kind h rfl ih
  | unsigned p ih => exact ih
  | base a ih => exact ih
  | raised a t h exponent iha ihe =>
    exact isChain_append_of_follows iha (isChain_cons_of_kind h rfl ihe)
      (follows_of_kind h (by decide) _)
  | number t h => exact .singleton t
  | name t h => exact .singleton t
  | call f l args r hf hl hr ih =>
    exact isChain_cons_of_kind hf rfl (isChain_cons_of_kind hl rfl
      (isChain_append_of_follows ih (.singleton r) (follows_of_kind hr (by decide) _)))
  | emptyCall f l r hf hl hr =>
    exact isChain_cons_of_kind hf rfl (isChain_cons_of_kind hl rfl (.singleton r))
  | parens l e r hl hr ih =>
    exact isChain_cons_of_kind hl rfl
      (isChain_append_of_follows ih (.singleton r) (follows_of_kind hr (by decide) _))
  | last e ih => exact ih
  | comma e t h rest ihe ihr =>
    exact isChain_append_of_follows ihe (isChain_cons_of_kind h rfl ihr)
      (follows_of_kind h (by decide) _)

/-! ## Where a phrase is over -/

/-- A phrase of the tokens does not go on with a token of the kind: either no such phrase does, or
the kind is that of an opening parenthesis and there is no name to call in front of it. -/
inductive Ends (p : Phrase) (tokens : List Token) (kind : Kind) : Prop
  | follows (h : p.reach < kind.reach)
  | closed {before : List Token} {last : Token} (htokens : tokens = before ++ [last])
      (hlast : last.kind.closesAtom = true) (hkind : kind = .leftParen)

theorem Ends.append_left {p : Phrase} {tokens : List Token} {kind : Kind} (h : Ends p tokens kind)
    (before : List Token) : Ends p (before ++ tokens) kind := by
  cases h with
  | follows h => exact .follows h
  | closed htokens hlast hkind => exact .closed (by rw [htokens, List.append_assoc]) hlast hkind

/-- A larger phrase is over if the token is none of those that only go on with the larger one. -/
theorem Ends.raise {p q : Phrase} {tokens : List Token} {kind : Kind} (h : Ends p tokens kind)
    (hq : p.reach < kind.reach → q.reach < kind.reach) : Ends q tokens kind := by
  cases h with
  | follows h => exact .follows (hq h)
  | closed htokens hlast hkind => exact .closed htokens hlast hkind

theorem Phrase.reach_lt_eof (p : Phrase) : p.reach < Kind.eof.reach := by
  rcases p with (_ | _ | _ | _ | _) | (_ | _) | _ <;> decide

theorem not_follows_leftParen {p : Phrase} {t : Token} (ht : t.kind = .leftParen)
    (rest : List Token) : ¬ Follows p (t :: rest) := by
  refine not_follows ht ?_ rest
  rcases p with (_ | _ | _ | _ | _) | (_ | _) | _ <;> decide

theorem Follows.of_append {p : Phrase} {ts us : List Token} (h : Follows p (ts ++ us)) :
    Follows p ts := by
  cases ts with
  | nil => exact follows_nil p
  | cons t ts => exact follows_cons.2 (follows_cons.1 h)

/-- If a phrase is over in front of a token, a derivation at the front of the same tokens is its
derivation. For an opening parenthesis that is so since it has no place further in either. -/
theorem eq_of_ends {p : Phrase} {d d' : Derivation p} {t : Token} {rest more : List Token}
    (he : Ends p d.yield t.kind) (hf : Follows p rest)
    (h : d'.yield ++ rest = d.yield ++ t :: more) : d' = d ∧ rest = t :: more := by
  cases he with
  | follows hk => exact eq_of_yield_append d' d hf (follows_cons.2 hk) h
  | @closed before last htokens hlast hkind =>
    exfalso
    have hopen : ¬ Follows p (t :: more) := not_follows_leftParen hkind more
    rcases List.append_eq_append_iff.1 h with ⟨w, hw, hrest⟩ | ⟨w, hw, hmore⟩
    · -- A shorter derivation is the same one, and the parenthesis would follow it.
      rw [hrest] at hf
      obtain ⟨-, rfl⟩ : d' = d ∧ w = [] := by
        refine eq_of_yield_append d' d hf.of_append (follows_nil p) ?_
        rw [List.append_nil, hw]
      exact hopen hf
    · cases w with
      | nil => exact hopen (hmore ▸ hf)
      | cons u w =>
        -- The parenthesis would stand inside a longer one.
        obtain ⟨rfl, -⟩ := List.cons.inj hmore
        have hchain := isChain_yield d'
        rw [hw, htokens, List.append_assoc] at hchain
        exact (List.isChain_cons_cons.1 hchain.right_of_append).1 hlast hkind

/-! ## Getting stuck -/

/-- A phrase can begin with the tokens read so far. With the next token behind them, none can, not
even one that is over before that token. -/
structure Stuck (p : Phrase) (read : List Token) (t : Token) : Prop where
  begins : ∃ (d : Derivation p) (more : List Token), d.yield = read ++ more
  barred : ∀ (d : Derivation p) (rest more : List Token), Follows p rest →
    d.yield ++ rest ≠ read ++ t :: more

/-- What is read first, be it the next token. -/
theorem nextKind_append_cons (read : List Token) (t : Token) (more : List Token) :
    nextKind (read ++ t :: more) = nextKind (read ++ [t]) := by
  cases read <;> rfl

theorem Follows.of_nextKind {p : Phrase} {ts us : List Token} (h : Follows p ts)
    (hk : nextKind us = nextKind ts) : Follows p us := by
  cases us with
  | nil => exact follows_nil p
  | cons u us =>
    cases ts with
    | nil => exact follows_of_kind hk p.reach_lt_eof us
    | cons t ts => exact follows_of_kind hk (follows_cons.1 h) us

/-- Some token that closes a parenthesis. -/
def closing : Token := ⟨.rightParen, ⟨0, 0⟩, ")"⟩

/-- Some token that is a number. -/
def numeral : Token := ⟨.number, ⟨0, 0⟩, "0"⟩

variable {read : List Token} {t : Token}

/-! ### Atoms -/

/-- No atom begins with the token. -/
theorem stuck_of_start (h : t.kind.opensAtom = false) : Stuck (.operand .atom) [] t where
  begins := ⟨.number numeral rfl, [numeral], rfl⟩
  barred a rest more _ ha := by
    obtain ⟨u, us, hu, hk⟩ := a.exists_yield_atom
    rw [hu] at ha
    obtain ⟨rfl, -⟩ := List.cons.inj ha
    rw [h] at hk
    cases hk

/-- An atom that begins with an opening parenthesis holds a sum and a closing one. -/
theorem Derivation.exists_of_parens {a : Derivation (.operand .atom)} {l : Token}
    {rest ts : List Token} (hl : l.kind = .leftParen) (h : a.yield ++ rest = l :: ts) :
    ∃ (e : Derivation (.operand .sum)) (r : Token), r.kind = .rightParen ∧
      e.yield ++ r :: rest = ts := by
  cases a with
  | parens l' e r hl' hr =>
    simp only [yield, List.cons_append, List.append_assoc, List.nil_append] at h
    exact ⟨e, r, hr, (List.cons.inj h).2⟩
  | _ => exact absurd (kind_eq_of_cons h) (by simp [*])

theorem Stuck.parens (h : Stuck (.operand .sum) read t) {l : Token} (hl : l.kind = .leftParen) :
    Stuck (.operand .atom) (l :: read) t where
  begins := by
    obtain ⟨e, more, he⟩ := h.begins
    refine ⟨.parens l e closing hl rfl, more ++ [closing], ?_⟩
    simp [Derivation.yield, he]
  barred a rest more _ ha := by
    obtain ⟨e, r, hr, he⟩ := Derivation.exists_of_parens hl ha
    exact h.barred e _ more (follows_of_kind hr (by decide) _) he

/-- The closing parenthesis is missing. -/
theorem Stuck.unclosed {l : Token} {e : Derivation (.operand .sum)} (hl : l.kind = .leftParen)
    (hends : Ends (.operand .sum) e.yield t.kind) (ht : t.kind ≠ .rightParen) :
    Stuck (.operand .atom) (l :: e.yield) t where
  begins := ⟨.parens l e closing hl rfl, [closing], rfl⟩
  barred a rest more _ ha := by
    obtain ⟨e', r, hr, he⟩ := Derivation.exists_of_parens hl ha
    obtain ⟨-, hrest⟩ := eq_of_ends hends (follows_of_kind hr (by decide) _) he
    exact ht ((List.cons.inj hrest).1 ▸ hr)

section

variable {f l : Token} (hf : f.kind = .ident) (hl : l.kind = .leftParen)
include hf hl

/-- An atom that begins with a name and an opening parenthesis is a call. If the next token does not
close that, there are arguments. -/
theorem Derivation.exists_of_call {a : Derivation (.operand .atom)} {rest ts : List Token}
    (hfollows : Follows (.operand .atom) rest) (h : a.yield ++ rest = f :: l :: ts)
    (hnext : nextKind ts ≠ .rightParen) :
    ∃ (args : Derivation .arguments) (r : Token), r.kind = .rightParen ∧
      args.yield ++ r :: rest = ts := by
  cases a with
  | name f' hf' =>
    obtain rfl := (List.cons.inj h).2
    exact absurd hfollows (not_follows_leftParen hl _)
  | call f' l' args r hf' hl' hr =>
    simp only [yield, List.cons_append, List.append_assoc, List.nil_append] at h
    exact ⟨args, r, hr, (List.cons.inj (List.cons.inj h).2).2⟩
  | emptyCall f' l' r hf' hl' hr =>
    obtain rfl := (List.cons.inj (List.cons.inj h).2).2
    exact absurd hr hnext
  | _ => exact absurd (kind_eq_of_cons h) (by simp [*])

theorem Stuck.call (h : Stuck .arguments read t) (hnext : nextKind (read ++ [t]) ≠ .rightParen) :
    Stuck (.operand .atom) (f :: l :: read) t where
  begins := by
    obtain ⟨args, more, hargs⟩ := h.begins
    refine ⟨.call f l args closing hf hl rfl, more ++ [closing], ?_⟩
    simp [Derivation.yield, hargs]
  barred a rest more hfollows ha := by
    rw [← nextKind_append_cons read t more] at hnext
    obtain ⟨args, r, hr, hargs⟩ := Derivation.exists_of_call hf hl hfollows ha hnext
    exact h.barred args _ more (follows_of_kind hr (by decide) _) hargs

/-- The closing parenthesis of a call is missing. -/
theorem Stuck.unclosed_call {args : Derivation .arguments}
    (hends : Ends .arguments args.yield t.kind) (ht : t.kind ≠ .rightParen) :
    Stuck (.operand .atom) (f :: l :: args.yield) t where
  begins := ⟨.call f l args closing hf hl rfl, [closing], rfl⟩
  barred a rest more hfollows ha := by
    obtain ⟨args', r, hr, hargs⟩ :=
      Derivation.exists_of_call hf hl hfollows ha (args.nextKind_yield_ne _)
    obtain ⟨-, hrest⟩ := eq_of_ends hends (follows_of_kind hr (by decide) _) hargs
    exact ht ((List.cons.inj hrest).1 ▸ hr)

end

/-! ### Powers and signed parts -/

theorem Stuck.base (h : Stuck (.operand .atom) read t) : Stuck (.operand .power) read t where
  begins := by
    obtain ⟨a, more, ha⟩ := h.begins
    exact ⟨.base a, more, ha⟩
  barred p rest more hf hp := by
    cases p with
    | base a => exact h.barred a rest more (hf.mono (by decide)) hp
    | raised a c hc exponent =>
      simp only [Derivation.yield, List.append_assoc] at hp
      exact h.barred a _ more (follows_of_kind hc (by decide) _) hp

theorem Stuck.exponent (h : Stuck (.operand .signed) read t) (a : Derivation (.operand .atom))
    {c : Token} (hc : c.kind = .caret) : Stuck (.operand .power) (a.yield ++ c :: read) t where
  begins := by
    obtain ⟨s, more, hs⟩ := h.begins
    refine ⟨.raised a c hc s, more, ?_⟩
    simp [Derivation.yield, hs]
  barred p rest more hf hp := by
    have ha : Follows (.operand .atom) (c :: (read ++ t :: more)) :=
      follows_of_kind hc (by decide) _
    simp only [List.append_assoc, List.cons_append] at hp
    cases p with
    | base a' =>
      obtain ⟨-, rfl⟩ := eq_of_yield_append a' a (hf.mono (by decide)) ha hp
      exact not_follows hc (by decide) _ hf
    | raised a' c' hc' s =>
      simp only [Derivation.yield, List.append_assoc, List.cons_append] at hp
      obtain ⟨-, hrest⟩ := eq_of_yield_append a' a (follows_of_kind hc' (by decide) _) ha hp
      exact h.barred s rest more hf (List.cons.inj hrest).2

theorem Stuck.sign (h : Stuck (.operand .signed) read t) {u : Token}
    (hu : u.kind = .minus ∨ u.kind = .plus) : Stuck (.operand .signed) (u :: read) t where
  begins := by
    obtain ⟨s, more, hs⟩ := h.begins
    rcases hu with hu | hu
    · exact ⟨.minus u hu s, more, congrArg (u :: ·) hs⟩
    · exact ⟨.plus u hu s, more, congrArg (u :: ·) hs⟩
  barred s rest more hf hs := by
    cases s with
    | minus u' hu' s => exact h.barred s rest more hf (List.cons.inj hs).2
    | plus u' hu' s => exact h.barred s rest more hf (List.cons.inj hs).2
    | unsigned p => exact p.cons_ne_yield_append hu _ _ hs.symm

theorem Stuck.unsigned (h : Stuck (.operand .power) read t)
    (hminus : nextKind (read ++ [t]) ≠ .minus) (hplus : nextKind (read ++ [t]) ≠ .plus) :
    Stuck (.operand .signed) read t where
  begins := by
    obtain ⟨p, more, hp⟩ := h.begins
    exact ⟨.unsigned p, more, hp⟩
  barred s rest more hf hs := by
    cases s with
    | minus u hu s =>
      rw [← nextKind_append_cons read t more, ← hs] at hminus
      exact hminus hu
    | plus u hu s =>
      rw [← nextKind_append_cons read t more, ← hs] at hplus
      exact hplus hu
    | unsigned p => exact h.barred p rest more hf hs

/-! ### Chains -/

section

variable {link : Link}

/-- A chain from its first item on. -/
def Derivation.whole : {link : Link} → Derivation (.operand link.item) → Derivation (.tail link) →
    Derivation (.operand link.whole)
  | .sum, first, tail => .sum first tail
  | .product, first, tail => .product first tail

theorem Derivation.yield_whole (first : Derivation (.operand link.item))
    (tail : Derivation (.tail link)) : (whole first tail).yield = first.yield ++ tail.yield := by
  cases link <;> rfl

theorem Derivation.exists_whole (d : Derivation (.operand link.whole)) :
    ∃ first tail, d = whole first tail := by
  cases link with
  | sum =>
    cases d with
    | sum first tail => exact ⟨first, tail, rfl⟩
  | product =>
    cases d with
    | product first tail => exact ⟨first, tail, rfl⟩

theorem Follows.tail_of_whole {rest : List Token} (h : Follows (.operand link.whole) rest) :
    Follows (.tail link) rest :=
  h.mono (by cases link <;> decide)

theorem Stuck.of_item (h : Stuck (.operand link.item) read t) :
    Stuck (.operand link.whole) read t where
  begins := by
    obtain ⟨first, more, hfirst⟩ := h.begins
    refine ⟨.whole first .done, more, ?_⟩
    rw [Derivation.yield_whole, hfirst]
    exact List.append_nil _
  barred d rest more hf hd := by
    obtain ⟨first, tail, rfl⟩ := d.exists_whole
    rw [Derivation.yield_whole, List.append_assoc] at hd
    exact h.barred first _ more (hf.tail_of_whole.append_tail tail) hd

theorem Stuck.of_tail (h : Stuck (.tail link) read t) (first : Derivation (.operand link.item))
    (hfollows : Follows (.operand link.item) (read ++ [t])) :
    Stuck (.operand link.whole) (first.yield ++ read) t where
  begins := by
    obtain ⟨tail, more, htail⟩ := h.begins
    refine ⟨.whole first tail, more, ?_⟩
    rw [Derivation.yield_whole, htail, List.append_assoc]
  barred d rest more hf hd := by
    obtain ⟨first', tail, rfl⟩ := d.exists_whole
    rw [Derivation.yield_whole, List.append_assoc, List.append_assoc] at hd
    obtain ⟨-, htail⟩ := eq_of_yield_append first' first (hf.tail_of_whole.append_tail tail)
      (hfollows.of_nextKind (nextKind_append_cons read t more)) hd
    exact h.barred tail rest more hf.tail_of_whole htail

variable {u : Token} {op : BinaryOp}

/-- The rest of a chain that begins with an operator goes on with an item. -/
theorem Derivation.exists_of_joins {d : Derivation (.tail link)} {rest ts : List Token}
    (hj : Joins link u.kind op) (hf : Follows (.tail link) rest) (h : d.yield ++ rest = u :: ts) :
    ∃ (item : Derivation (.operand link.item)) (tail : Derivation (.tail link)),
      item.yield ++ (tail.yield ++ rest) = ts := by
  cases d with
  | done =>
    obtain rfl : rest = u :: ts := h
    exact absurd hf (hj.not_follows ts)
  | next u' op' hj' item tail =>
    simp only [yield, List.cons_append, List.append_assoc] at h
    exact ⟨item, tail, (List.cons.inj h).2⟩

theorem Stuck.next_item (h : Stuck (.operand link.item) read t) (hj : Joins link u.kind op) :
    Stuck (.tail link) (u :: read) t where
  begins := by
    obtain ⟨item, more, hitem⟩ := h.begins
    refine ⟨.next u op hj item .done, more, ?_⟩
    simp [Derivation.yield, hitem]
  barred d rest more hf hd := by
    obtain ⟨item, tail, hitem⟩ := Derivation.exists_of_joins hj hf hd
    exact h.barred item _ more (hf.append_tail tail) hitem

theorem Stuck.next_tail (h : Stuck (.tail link) read t) (hj : Joins link u.kind op)
    (item : Derivation (.operand link.item))
    (hfollows : Follows (.operand link.item) (read ++ [t])) :
    Stuck (.tail link) (u :: (item.yield ++ read)) t where
  begins := by
    obtain ⟨tail, more, htail⟩ := h.begins
    refine ⟨.next u op hj item tail, more, ?_⟩
    simp [Derivation.yield, htail]
  barred d rest more hf hd := by
    rw [List.cons_append, List.append_assoc] at hd
    obtain ⟨item', tail, hitem⟩ := Derivation.exists_of_joins hj hf hd
    obtain ⟨-, htail⟩ := eq_of_yield_append item' item (hf.append_tail tail)
      (hfollows.of_nextKind (nextKind_append_cons read t more)) hitem
    exact h.barred tail rest more hf htail

end

/-! ### Arguments -/

theorem Stuck.argument (h : Stuck (.operand .sum) read t) : Stuck .arguments read t where
  begins := by
    obtain ⟨e, more, he⟩ := h.begins
    exact ⟨.last e, more, he⟩
  barred args rest more hf hargs := by
    cases args with
    | last e => exact h.barred e rest more (hf.mono (by decide)) hargs
    | comma e c hc args =>
      simp only [Derivation.yield, List.append_assoc] at hargs
      exact h.barred e _ more (follows_of_kind hc (by decide) _) hargs

theorem Stuck.more_arguments (h : Stuck .arguments read t) (e : Derivation (.operand .sum))
    {c : Token} (hc : c.kind = .comma) : Stuck .arguments (e.yield ++ c :: read) t where
  begins := by
    obtain ⟨args, more, hargs⟩ := h.begins
    refine ⟨.comma e c hc args, more, ?_⟩
    simp [Derivation.yield, hargs]
  barred args rest more hf hargs := by
    have he : Follows (.operand .sum) (c :: (read ++ t :: more)) := follows_of_kind hc (by decide) _
    simp only [List.append_assoc, List.cons_append] at hargs
    cases args with
    | last e' =>
      obtain ⟨-, rfl⟩ := eq_of_yield_append e' e (hf.mono (by decide)) he hargs
      exact not_follows hc (by decide) _ hf
    | comma e' c' hc' args =>
      simp only [Derivation.yield, List.append_assoc, List.cons_append] at hargs
      obtain ⟨-, hrest⟩ := eq_of_yield_append e' e (follows_of_kind hc' (by decide) _) he hargs
      exact h.barred args rest more hf (List.cons.inj hrest).2

/-! ### Whole formulas -/

/-- Some formula with an end mark behind it begins with the tokens. -/
def Viable (tokens : List Token) : Prop :=
  ∃ (d : Derivation (.operand .sum)) (stop : Token), stop.kind = .eof ∧
    tokens <+: d.yield ++ [stop]

theorem viable_of_append {d : Derivation (.operand .sum)} {more : List Token}
    (h : d.yield = read ++ more) : Viable read := by
  refine ⟨d, ⟨.eof, ⟨0, 0⟩, ""⟩, rfl, ?_⟩
  rw [h, List.append_assoc]
  exact List.prefix_append read _

theorem Stuck.viable (h : Stuck (.operand .sum) read t) : Viable read := by
  obtain ⟨d, more, hd⟩ := h.begins
  exact viable_of_append hd

theorem Stuck.not_viable (h : Stuck (.operand .sum) read t) : ¬ Viable (read ++ [t]) := by
  rintro ⟨d, stop, hstop, more, hmore⟩
  rw [List.append_assoc] at hmore
  exact h.barred d [stop] more (follows_of_kind hstop (by decide) _) hmore.symm

/-- A formula is over, but the tokens are not. -/
theorem not_viable_of_ends {d : Derivation (.operand .sum)}
    (hends : Ends (.operand .sum) d.yield t.kind) (ht : t.kind ≠ .eof) :
    ¬ Viable (d.yield ++ [t]) := by
  rintro ⟨d', stop, hstop, more, hmore⟩
  rw [List.append_assoc] at hmore
  obtain ⟨-, hrest⟩ := eq_of_ends hends (follows_of_kind hstop (by decide) []) hmore.symm
  exact ht ((List.cons.inj hrest).1 ▸ hstop)

end Optima.Formula
