import Optima.Expr.Printer
import Optima.Proofs.Expr.Folded
import Optima.Proofs.Formula.Grammar

/-!
How deep printed expressions nest.

The limit on open signed parts is counted on the text. An expression that was read from a text can
print as a deeper one, since a subtraction from zero prints as a sign, and `pow` as a power.

* `Expr.nesting`: how many signed parts are open at once when the printed text is read.
* `Expr.nestingIn`: the same where an operation encloses operands that bind loosely.
* `Fits`: for each phrase, how deep an expression that is read as one can nest.
* `fits_image`: what a derivation stands for fits its depth.
-/

namespace Optima

namespace Expr

variable {α : Type} [Scalar α] [Printable α]

def nesting : Expr α → Nat
  | const v =>
    match Printable.shortest false v with
    | .finite true _ => 2
    | _ => 1
  | sym _ => 1
  | unary op a =>
    match op with
    | .neg => a.nesting + (decide (a.precedence < signPrecedence)).toNat + 1
    | _ => a.nesting + 1
  | binary l op r =>
    max (l.nesting + (leftEnclosed op l).toNat)
      (r.nesting + (rightEnclosed op r).toNat + if op = .pow then 1 else 0)

/-- How deep the text nests where it is enclosed unless it binds tighter than `p`. -/
def nestingIn (p : Nat) (e : Expr α) : Nat := e.nesting + (decide (e.precedence ≤ p)).toNat

/-! ## In different places -/

theorem nesting_le_nestingIn (p : Nat) (e : Expr α) : e.nesting ≤ e.nestingIn p :=
  Nat.le_add_right _ _

theorem nestingIn_le (p : Nat) (e : Expr α) : e.nestingIn p ≤ e.nesting + 1 :=
  Nat.add_le_add_left (Bool.toNat_le _) _

theorem nestingIn_mono {p q : Nat} (h : p ≤ q) (e : Expr α) : e.nestingIn p ≤ e.nestingIn q := by
  refine Nat.add_le_add_left ?_ _
  by_cases hp : e.precedence ≤ p
  · simp [hp, Nat.le_trans hp h]
  · simp [hp]

theorem nestingIn_of_lt {p : Nat} {e : Expr α} (h : p < e.precedence) :
    e.nestingIn p = e.nesting := by
  simp [nestingIn, h]

theorem nestingIn_succ_le (p q : Nat) (e : Expr α) : e.nestingIn q ≤ e.nestingIn p + 1 :=
  Nat.le_trans (nestingIn_le q e) (Nat.succ_le_succ (nesting_le_nestingIn p e))

/-! ## Of each node -/

theorem nesting_const_le (v : α) : (const v).nesting ≤ 2 := by
  rw [nesting]
  split <;> decide

omit [Printable α] in
theorem two_lt_precedence_const (v : α) : 2 < (const v).precedence := by
  rw [precedence]
  split <;> decide

theorem nestingIn_two_const_le (v : α) : (const v).nestingIn 2 ≤ 2 := by
  rw [nestingIn_of_lt (two_lt_precedence_const v)]
  exact nesting_const_le v

theorem nestingIn_const_le (p : Nat) (v : α) : (const v).nestingIn p ≤ 3 :=
  Nat.le_trans (nestingIn_le p _) (Nat.succ_le_succ (nesting_const_le v))

omit [Printable α] in
theorem one_le_precedence (e : Expr α) : 1 ≤ e.precedence := by
  cases e with
  | const v => exact Nat.le_of_lt (Nat.lt_of_succ_lt (two_lt_precedence_const v))
  | sym s => exact (by decide : 1 ≤ atomPrecedence)
  | unary op a =>
    rw [precedence]
    split <;> decide
  | binary l op r =>
    rw [precedence]
    cases op <;> decide

/-- Enclosing what binds looser than the next level is enclosing what binds no tighter than this
one. -/
theorem nesting_add_lt (p : Nat) (e : Expr α) :
    e.nesting + (decide (e.precedence < p + 1)).toNat = e.nestingIn p := by
  rw [nestingIn, decide_eq_decide.2 Nat.lt_succ_iff]

theorem nesting_neg (a : Expr α) : (unary .neg a).nesting = a.nestingIn 2 + 1 :=
  congrArg (· + 1) (nesting_add_lt 2 a)

theorem nestingIn_two_neg (a : Expr α) : (unary .neg a).nestingIn 2 = a.nestingIn 2 + 1 := by
  rw [nestingIn_of_lt (by decide : 2 < signPrecedence), nesting_neg]

theorem nesting_call {op : UnaryOp} (h : op ≠ .neg) (a : Expr α) :
    (unary op a).nesting = a.nesting + 1 := by
  cases op with
  | neg => exact absurd rfl h
  | _ => rfl

/-- A sum encloses sums on its right only. -/
theorem nesting_sum {op : BinaryOp} (h : op = .add ∨ op = .sub) (l r : Expr α) :
    (binary l op r).nesting = max l.nesting (r.nestingIn 1) := by
  have hl : l.nestingIn 0 = l.nesting := nestingIn_of_lt (one_le_precedence l)
  have hnode : (binary l op r).nesting =
      max (l.nesting + (decide (l.precedence < 0 + 1)).toNat) (r.nestingIn 1) := by
    rcases h with rfl | rfl <;> rfl
  rw [hnode, nesting_add_lt, hl]

/-- A product encloses sums, and products on its right. -/
theorem nesting_product {op : BinaryOp} (h : op = .mul ∨ op = .div) (l r : Expr α) :
    (binary l op r).nesting = max (l.nestingIn 1) (r.nestingIn 2) := by
  have hnode : (binary l op r).nesting =
      max (l.nesting + (decide (l.precedence < 1 + 1)).toNat) (r.nestingIn 2) := by
    rcases h with rfl | rfl <;> rfl
  rw [hnode, nesting_add_lt]

/-- A power encloses every base that is not an atom. Its exponent is a signed part of its own. -/
theorem nesting_pow (l r : Expr α) :
    (binary l .pow r).nesting = max (l.nestingIn 4) (r.nestingIn 2 + 1) := by
  rw [← nesting_add_lt 2 r]
  rfl

/-! ## Of what the folding constructors build -/

theorem nestingIn_ofUnary_neg_le (a : Expr α) :
    (ofUnary .neg a).nestingIn 2 ≤ max 2 (a.nestingIn 2 + 1) := by
  rcases ofUnary_outcome .neg a with ⟨v, h⟩ | ⟨-, h⟩ | h
  · rw [h]
    exact Nat.le_trans (nestingIn_two_const_le v) (Nat.le_max_left _ _)
  · have ha : a.nestingIn 2 = (ofUnary .neg a).nestingIn 2 + 1 := by
      rw [← nestingIn_two_neg, ← h]
    omega
  · rw [h, nestingIn_two_neg]
    exact Nat.le_max_right _ _

theorem nestingIn_ofUnary_le {op : UnaryOp} (hop : op ≠ .neg) (a : Expr α) :
    (ofUnary op a).nestingIn 4 ≤ max 3 (a.nesting + 1) := by
  rcases ofUnary_outcome op a with ⟨v, h⟩ | ⟨hneg, -⟩ | h
  · rw [h]
    exact Nat.le_trans (nestingIn_const_le 4 v) (Nat.le_max_left _ _)
  · exact absurd hneg hop
  · have hp : 4 < (unary op a).precedence := by simp [precedence, hop, atomPrecedence]
    rw [h, nestingIn_of_lt hp, nesting_call hop]
    exact Nat.le_max_right _ _

theorem nesting_ofBinary_sum_le {op : BinaryOp} (hop : op = .add ∨ op = .sub) (l r : Expr α) :
    (ofBinary l op r).nesting ≤ max 2 (max l.nesting (r.nestingIn 1 + 2)) := by
  have hr := nesting_le_nestingIn 1 r
  rcases ofBinary_outcome l op r with ⟨v, h⟩ | h | ⟨-, h⟩ | ⟨-, h⟩ | h <;> rw [h]
  · exact Nat.le_trans (nesting_const_le v) (Nat.le_max_left _ _)
  · omega
  · omega
  · -- The sign encloses a product.
    have hneg := nestingIn_ofUnary_neg_le r
    have hle := nesting_le_nestingIn 2 (ofUnary .neg r)
    have hsucc := nestingIn_succ_le 1 2 r
    omega
  · rw [nesting_sum hop]
    omega

theorem nestingIn_ofBinary_product_le {op : BinaryOp} (hop : op = .mul ∨ op = .div)
    (l r : Expr α) :
    (ofBinary l op r).nestingIn 1 ≤ max 2 (max (l.nestingIn 1) (r.nestingIn 2)) := by
  have hr := nestingIn_mono (by decide : 1 ≤ 2) r
  rcases ofBinary_outcome l op r with ⟨v, h⟩ | h | ⟨-, h⟩ | ⟨hsub, -⟩ | h
  · have hv := nestingIn_mono (by decide : 1 ≤ 2) (const v)
    have hle := nestingIn_two_const_le v
    rw [h]
    omega
  · rw [h]
    omega
  · rw [h]
    omega
  · rcases hop with rfl | rfl <;> cases hsub
  · have hop' : 1 < op.precedence := by rcases hop with rfl | rfl <;> decide
    have hp : 1 < (binary l op r).precedence := hop'
    rw [h, nestingIn_of_lt hp, nesting_product hop]
    exact Nat.le_max_right _ _

theorem nestingIn_ofBinary_pow_le (l r : Expr α) :
    (ofBinary l .pow r).nestingIn 2 ≤ max 2 (max (l.nestingIn 4) (r.nestingIn 2 + 1)) := by
  rcases ofBinary_outcome l .pow r with ⟨v, h⟩ | h | ⟨hop, -⟩ | ⟨hop, -⟩ | h
  · rw [h]
    exact Nat.le_trans (nestingIn_two_const_le v) (Nat.le_max_left _ _)
  · have hl := nestingIn_mono (by decide : 2 ≤ 4) l
    rw [h]
    omega
  · rcases hop with hop | hop <;> cases hop
  · cases hop
  · have hp : 2 < (binary l .pow r).precedence := (by decide : 2 < BinaryOp.pow.precedence)
    rw [h, nestingIn_of_lt hp, nesting_pow]
    exact Nat.le_max_right _ _

end Expr

/-! ## Of what derivations stand for -/

namespace Formula

open Optima.Expr

variable {α : Type} [Scalar α] [Printable α]

/-- How deep an expression can print that was read as the phrase, at depth `n`. Parentheses are
counted where the phrase can stand: around a sum in a product, around a product behind a sign, around
a power in a base. A call of `pow` adds three levels, for the exponent, for parentheses in it and for
those around the call as a base; a subtraction from zero adds the sign and the parentheses behind
it. -/
def Operand.Fits (n : Nat) (e : Expr α) : Operand → Prop
  | .sum => e.nesting ≤ 5 * n
  | .product => e.nestingIn 1 + 2 ≤ 5 * n
  | .signed => e.nestingIn 2 + 2 ≤ 5 * n
  | .power => e.nestingIn 2 ≤ 5 * n + 3
  | .atom => e.nestingIn 4 ≤ 5 * n + 3

/-- The same for the expressions of a phrase of several. -/
def Fits (n : Nat) : (p : Phrase) → Value α p → Prop
  | .operand o, e => o.Fits n e
  | .tail link, items => ∀ item ∈ items, (∃ kind, Joins link kind item.1) ∧ link.item.Fits n item.2
  | .arguments, args => ∀ e ∈ args, Operand.sum.Fits n e

theorem Operand.Fits.mono {o : Operand} {n m : Nat} {e : Expr α} (h : o.Fits n e) (hnm : n ≤ m) :
    o.Fits m e := by
  cases o <;> simp only [Operand.Fits] at h ⊢ <;> omega

theorem Fits.mono {p : Phrase} {n m : Nat} {value : Value α p} (h : Fits n p value)
    (hnm : n ≤ m) : Fits m p value := by
  cases p with
  | operand o => exact Operand.Fits.mono h hnm
  | tail link => exact fun item hi => ⟨(h item hi).1, (h item hi).2.mono hnm⟩
  | arguments => exact fun e he => (h e he).mono hnm

theorem fits_const (n : Nat) (v : α) : Operand.atom.Fits n (const v) :=
  Nat.le_trans (nestingIn_const_le 4 v) (Nat.le_add_left 3 _)

theorem fits_sym (n : Nat) (s : Symbol) : Operand.atom.Fits n (sym s : Expr α) := by
  have hs : (sym s : Expr α).nestingIn 4 = 1 := nestingIn_of_lt (by decide : 4 < atomPrecedence)
  change _ ≤ _
  omega

theorem fits_nameImage (n : Nat) (scope : Scope) (name : String) :
    Operand.atom.Fits n (nameImage scope name : Expr α) := by
  unfold nameImage
  split
  · exact fits_sym n _
  · exact fits_const n _

/-! ## Chains -/

theorem fits_ofBinary {link : Link} {kind : Kind} {op : BinaryOp} (hj : Joins link kind op)
    {n : Nat} {l r : Expr α} (hl : link.whole.Fits n l) (hr : link.item.Fits n r) :
    link.whole.Fits n (ofBinary l op r) := by
  cases link with
  | sum =>
    have hop : op = .add ∨ op = .sub := by cases hj <;> simp
    have h := nesting_ofBinary_sum_le hop l r
    simp only [Link.whole, Link.item, Operand.Fits] at hl hr ⊢
    omega
  | product =>
    have hop : op = .mul ∨ op = .div := by cases hj <;> simp
    have h := nestingIn_ofBinary_product_le hop l r
    simp only [Link.whole, Link.item, Operand.Fits] at hl hr ⊢
    omega

/-- An item is a chain of its own. -/
theorem fits_whole {link : Link} {n : Nat} {e : Expr α} (h : link.item.Fits n e) :
    link.whole.Fits n e := by
  have hsum := nesting_le_nestingIn 1 e
  have hproduct := nestingIn_mono (by decide : 1 ≤ 2) e
  cases link <;> simp only [Link.whole, Link.item, Operand.Fits] at h ⊢ <;> omega

theorem fits_joined {link : Link} {n : Nat} {first : Expr α} {tail : List (BinaryOp × Expr α)}
    (hf : link.whole.Fits n first) (ht : Fits n (.tail link) tail) :
    link.whole.Fits n (joined first tail) := by
  induction tail generalizing first with
  | nil => exact hf
  | cons item tail ih =>
    obtain ⟨⟨hj, hi⟩, ht⟩ := List.forall_mem_cons.1 ht
    obtain ⟨kind, hj⟩ := hj
    exact ih (fits_ofBinary hj hf hi) ht

/-! ## Powers, signs and calls -/

theorem fits_pow {n : Nat} {l r : Expr α} (hl : l.nestingIn 4 ≤ 5 * n + 3)
    (hr : r.nestingIn 2 + 1 ≤ 5 * n + 3) : Operand.power.Fits n (ofBinary l .pow r) := by
  have h := nestingIn_ofBinary_pow_le l r
  change _ ≤ _
  omega

theorem fits_neg {n : Nat} {e : Expr α} (h : Operand.signed.Fits n e) :
    Operand.signed.Fits (n + 1) (ofUnary .neg e) := by
  have hneg := nestingIn_ofUnary_neg_le e
  simp only [Operand.Fits] at h ⊢
  omega

theorem ne_neg_of_ofName? {name : String} {op : UnaryOp} (h : UnaryOp.ofName? name = some op) :
    op ≠ .neg := by
  rintro rfl
  unfold UnaryOp.ofName? at h
  split at h <;> cases h

theorem fits_callImage {n : Nat} (name : String) {args : List (Expr α)}
    (h : Fits n .arguments args) : Operand.atom.Fits n (callImage name args) := by
  unfold callImage
  split
  · next op arg rest hop =>
    have ha : arg.nesting ≤ 5 * n := h arg (by simp)
    have hcall := nestingIn_ofUnary_le (ne_neg_of_ofName? hop) arg
    change _ ≤ _
    omega
  · next base exponent rest _ =>
    have hb : base.nesting ≤ 5 * n := h base (by simp)
    have he : exponent.nesting ≤ 5 * n := h exponent (by simp)
    have hbase := nestingIn_le 4 base
    have hexponent := nestingIn_le 2 exponent
    have hpow := nestingIn_ofBinary_pow_le base exponent
    have hsucc := nestingIn_succ_le 2 4 (ofBinary base .pow exponent)
    change _ ≤ _
    omega
  · exact fits_const n _

/-- By induction on the derivation, one phrase inside the other. -/
theorem fits_image (scope : Scope) {p : Phrase} (d : Derivation p) :
    Fits d.depth p (d.image scope : Value α p) := by
  induction d with
  | sum first tail ihf iht =>
    have hf := ihf.mono (Nat.le_max_left first.depth tail.depth)
    have ht := iht.mono (Nat.le_max_right first.depth tail.depth)
    exact @fits_joined α _ _ .sum _ _ _ (fits_whole hf) ht
  | product first tail ihf iht =>
    have hf := ihf.mono (Nat.le_max_left first.depth tail.depth)
    have ht := iht.mono (Nat.le_max_right first.depth tail.depth)
    exact @fits_joined α _ _ .product _ _ _ (fits_whole hf) ht
  | done => exact List.forall_mem_nil _
  | next t op hj item tail ihi iht =>
    have hi := ihi.mono (Nat.le_max_left item.depth tail.depth)
    have ht := iht.mono (Nat.le_max_right item.depth tail.depth)
    exact List.forall_mem_cons.2 ⟨⟨⟨_, hj⟩, hi⟩, ht⟩
  | minus t ht part ih => exact fits_neg ih
  | plus t ht part ih => exact ih.mono (Nat.le_succ _)
  | unsigned p ih =>
    have hp : (p.image scope : Expr α).nestingIn 2 ≤ 5 * p.depth + 3 := ih
    change (p.image scope : Expr α).nestingIn 2 + 2 ≤ 5 * (p.depth + 1)
    omega
  | base a ih =>
    exact Nat.le_trans (nestingIn_mono (by decide : 2 ≤ 4) _) ih
  | raised a t ht exponent iha ihe =>
    have ha := iha.mono (Nat.le_max_left a.depth exponent.depth)
    have he := ihe.mono (Nat.le_max_right a.depth exponent.depth)
    have he' : (exponent.image scope : Expr α).nestingIn 2 + 2 ≤ 5 * max a.depth exponent.depth := he
    exact fits_pow ha (by change _ ≤ 5 * max a.depth exponent.depth + 3; omega)
  | number t ht => exact fits_const 0 _
  | name t ht => exact fits_nameImage 0 scope t.text
  | call f l args r hf hl hr ih => exact fits_callImage f.text ih
  | emptyCall f l r hf hl hr => exact fits_callImage f.text (List.forall_mem_nil _)
  | parens l e r hl hr ih =>
    have he : (e.image scope : Expr α).nesting ≤ 5 * e.depth := ih
    have hle := nestingIn_le 4 (e.image scope : Expr α)
    change (e.image scope : Expr α).nestingIn 4 ≤ 5 * e.depth + 3
    omega
  | last e ih => exact List.forall_mem_singleton.2 ih
  | comma e t ht rest ihe ihr =>
    have he := ihe.mono (Nat.le_max_left e.depth rest.depth)
    have hr := ihr.mono (Nat.le_max_right e.depth rest.depth)
    exact List.forall_mem_cons.2 ⟨he, hr⟩

/-- An expression that a text was read as prints at most five times as deep as the text. -/
theorem nesting_image_le (scope : Scope) (d : Derivation (.operand .sum)) :
    (d.image scope : Expr α).nesting ≤ 5 * d.depth :=
  fits_image scope d

end Formula

end Optima
