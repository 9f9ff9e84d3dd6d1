import Optima.Expr.Derivative

/-!
Folded expressions: the normal form that the folding constructors keep.

* `constants`, `powerBases`: the constants of an expression, and those that stand as a base.
* `Folded`: no operation on constants alone, no two signs in a row, no neutral or absorbing operand.
* `ofUnary_outcome`, `ofBinary_outcome`: what the constructors can make of an operation.
* `folded_ofUnary`, `folded_ofBinary`: the constructors keep the form; so do sums and derivatives.
* `ofUnary_of_folded`, `ofBinary_of_folded`: on folded expressions they build the plain node.
-/

namespace Optima.Expr

/-! ## What an expression mentions -/

section

variable {α : Type}

/-- Every constant, from left to right. -/
def constants : Expr α → List α
  | const v => [v]
  | sym _ => []
  | unary _ a => a.constants
  | binary l _ r => l.constants ++ r.constants

/-- The constants that stand as the base of a power. -/
def powerBases : Expr α → List α
  | const _ => []
  | sym _ => []
  | unary _ a => a.powerBases
  | binary l op r =>
    (if op = .pow then l.constant?.toList else []) ++ (l.powerBases ++ r.powerBases)

end

variable {α : Type} [Scalar α]

/-! ## The normal form -/

/-- A constant left operand that folds with the operation, whatever stands on the right. -/
def foldsLeft (l : α) : BinaryOp → Bool
  | .add | .sub | .div => l == 0
  | .mul => l == 0 || l == 1
  | .pow => false

/-- A constant right operand that folds with the operation, whatever stands on the left. -/
def foldsRight (op : BinaryOp) (r : α) : Bool :=
  match op with
  | .add | .sub => r == 0
  | .mul | .pow => r == 0 || r == 1
  | .div => r == 1

def isNeg : Expr α → Bool
  | unary .neg _ => true
  | _ => false

def Folded : Expr α → Prop
  | const _ => True
  | sym _ => True
  | unary op a => a.Folded ∧ a.isConst = false ∧ ¬ (op = .neg ∧ a.isNeg = true)
  | binary l op r =>
    l.Folded ∧ r.Folded ∧ ¬ (l.isConst = true ∧ r.isConst = true) ∧
      (∀ v, l = const v → foldsLeft v op = false) ∧ ∀ v, r = const v → foldsRight op v = false

@[simp] theorem folded_const (v : α) : (const v).Folded := trivial

@[simp] theorem folded_sym (s : Symbol) : (sym s : Expr α).Folded := trivial

/-! ## The constructors keep it -/

theorem fromLeft?_eq_none {l : α} {op : BinaryOp} {right : Expr α} :
    fromLeft? l op right = none ↔ foldsLeft l op = false := by
  cases op <;> simp only [fromLeft?, foldsLeft]
  case mul => cases h₀ : l == 0 <;> cases h₁ : l == 1 <;> simp
  all_goals cases h₀ : l == 0 <;> simp

theorem fromRight?_eq_none {left : Expr α} {op : BinaryOp} {r : α} :
    fromRight? left op r = none ↔ foldsRight op r = false := by
  cases op <;> simp only [fromRight?, foldsRight]
  case mul | pow => cases h₀ : r == 0 <;> cases h₁ : r == 1 <;> simp
  case div => cases h₁ : r == 1 <;> simp
  all_goals cases h₀ : r == 0 <;> simp

theorem folded_ofUnary {op : UnaryOp} {a : Expr α} (h : a.Folded) : (ofUnary op a).Folded := by
  cases a with
  | const v => trivial
  | sym s => exact ⟨trivial, rfl, fun hn => Bool.noConfusion hn.2⟩
  | unary inner arg =>
    rw [ofUnary]
    split
    · exact h.1
    · next hne =>
      refine ⟨h, rfl, fun hn => hne ⟨hn.1, ?_⟩⟩
      cases inner <;> first | rfl | exact Bool.noConfusion hn.2
  | binary l op' r => exact ⟨h, rfl, fun hn => Bool.noConfusion hn.2⟩

theorem folded_fromLeft? {l : α} {op : BinaryOp} {right e : Expr α} (h : right.Folded)
    (he : fromLeft? l op right = some e) : e.Folded := by
  unfold fromLeft? at he
  repeat' split at he
  all_goals cases he
  all_goals first | exact h | exact folded_ofUnary h | trivial

theorem folded_fromRight? {left : Expr α} {op : BinaryOp} {r : α} {e : Expr α} (h : left.Folded)
    (he : fromRight? left op r = some e) : e.Folded := by
  unfold fromRight? at he
  repeat' split at he
  all_goals cases he
  all_goals first | exact h | trivial

/-- How the folding constructor builds a binary node. -/
theorem ofBinary_cases (l : Expr α) (op : BinaryOp) (r : Expr α) :
    (∃ v w, l = const v ∧ r = const w ∧ ofBinary l op r = const (op.apply v w)) ∨
      (∃ v, l = const v ∧ r.isConst = false ∧
        ofBinary l op r = (fromLeft? v op r).getD (binary l op r)) ∨
      (∃ w, l.isConst = false ∧ r = const w ∧
        ofBinary l op r = (fromRight? l op w).getD (binary l op r)) ∨
      (l.isConst = false ∧ r.isConst = false ∧ ofBinary l op r = binary l op r) := by
  cases l with
  | const v =>
    cases r with
    | const w => exact .inl ⟨v, w, rfl, rfl, rfl⟩
    | _ => exact .inr (.inl ⟨v, rfl, rfl, rfl⟩)
  | _ =>
    cases r with
    | const w => exact .inr (.inr (.inl ⟨w, rfl, rfl, rfl⟩))
    | _ => exact .inr (.inr (.inr ⟨rfl, rfl, rfl⟩))

omit [Scalar α] in
theorem ne_const_of_isConst {e : Expr α} (h : e.isConst = false) (v : α) : e ≠ const v := by
  rintro rfl
  exact Bool.noConfusion h

theorem folded_ofBinary {l : Expr α} {op : BinaryOp} {r : Expr α} (hl : l.Folded) (hr : r.Folded) :
    (ofBinary l op r).Folded := by
  rcases ofBinary_cases l op r with ⟨v, w, -, -, h⟩ | ⟨v, rfl, hc, h⟩ | ⟨w, hc, rfl, h⟩ |
    ⟨hcl, hcr, h⟩ <;> rw [h]
  · trivial
  · cases hf : fromLeft? v op r with
    | some e => exact folded_fromLeft? hr hf
    | none =>
      refine ⟨hl, hr, by simp [hc], fun u hu => ?_,
        fun u hu => absurd hu (ne_const_of_isConst hc u)⟩
      cases hu
      exact fromLeft?_eq_none.1 hf
  · cases hf : fromRight? l op w with
    | some e => exact folded_fromRight? hl hf
    | none =>
      refine ⟨hl, hr, by simp [hc], fun u hu => absurd hu (ne_const_of_isConst hc u),
        fun u hu => ?_⟩
      cases hu
      exact fromRight?_eq_none.1 hf
  · exact ⟨hl, hr, by simp [hcl], fun u hu => absurd hu (ne_const_of_isConst hcl u),
      fun u hu => absurd hu (ne_const_of_isConst hcr u)⟩

/-! ## What comes of an operation -/

theorem ofUnary_outcome (op : UnaryOp) (a : Expr α) :
    (∃ v, ofUnary op a = const v) ∨ (op = .neg ∧ a = unary .neg (ofUnary op a)) ∨
      ofUnary op a = unary op a := by
  cases a with
  | const v => exact .inl ⟨_, rfl⟩
  | unary inner arg =>
    rw [ofUnary]
    split
    · next h =>
      obtain ⟨rfl, rfl⟩ := h
      exact .inr (.inl ⟨rfl, rfl⟩)
    · exact .inr (.inr rfl)
  | _ => exact .inr (.inr rfl)

/-- A binary operation becomes a constant, one of its operands, the right one behind a sign, or the
plain node. -/
theorem ofBinary_outcome (l : Expr α) (op : BinaryOp) (r : Expr α) :
    (∃ v, ofBinary l op r = const v) ∨ ofBinary l op r = l ∨
      ((op = .add ∨ op = .mul) ∧ ofBinary l op r = r) ∨
      (op = .sub ∧ ofBinary l op r = ofUnary .neg r) ∨ ofBinary l op r = binary l op r := by
  rcases ofBinary_cases l op r with ⟨v, w, -, -, h⟩ | ⟨v, -, -, h⟩ | ⟨w, -, -, h⟩ | ⟨-, -, h⟩
  · exact .inl ⟨_, h⟩
  · cases hf : fromLeft? v op r with
    | none => simp [h, hf]
    | some e =>
      rw [h, hf, Option.getD_some]
      unfold fromLeft? at hf
      repeat' split at hf
      all_goals cases hf
      all_goals simp
  · cases hf : fromRight? l op w with
    | none => simp [h, hf]
    | some e =>
      rw [h, hf, Option.getD_some]
      unfold fromRight? at hf
      repeat' split at hf
      all_goals cases hf
      all_goals simp
  · simp [h]

theorem occurrences_ofUnary_subset (op : UnaryOp) (a : Expr α) :
    (ofUnary op a).occurrences ⊆ a.occurrences := by
  rcases ofUnary_outcome op a with ⟨v, h⟩ | ⟨-, h⟩ | h
  · simp [h, occurrences]
  · intro s hs
    rw [h]
    exact hs
  · rw [h, occurrences]
    exact List.Subset.refl _

theorem occurrences_ofBinary_subset (l : Expr α) (op : BinaryOp) (r : Expr α) :
    (ofBinary l op r).occurrences ⊆ l.occurrences ++ r.occurrences := by
  rcases ofBinary_outcome l op r with ⟨v, h⟩ | h | ⟨-, h⟩ | ⟨-, h⟩ | h <;> rw [h]
  · simp [occurrences]
  · exact List.subset_append_left _ _
  · exact List.subset_append_right _ _
  · exact List.Subset.trans (occurrences_ofUnary_subset .neg r) (List.subset_append_right _ _)
  · exact List.Subset.refl _

/-! ## Folding again changes nothing -/

theorem ofUnary_of_folded {op : UnaryOp} {a : Expr α} (h : (unary op a).Folded) :
    ofUnary op a = unary op a := by
  obtain ⟨-, hc, hn⟩ := h
  cases a with
  | const v => exact Bool.noConfusion hc
  | sym s => rfl
  | unary inner arg =>
    rw [ofUnary, if_neg]
    rintro ⟨rfl, rfl⟩
    exact hn ⟨rfl, rfl⟩
  | binary l op' r => rfl

theorem ofBinary_of_folded {l : Expr α} {op : BinaryOp} {r : Expr α} (h : (binary l op r).Folded) :
    ofBinary l op r = binary l op r := by
  obtain ⟨-, -, hc, hl, hr⟩ := h
  rcases ofBinary_cases l op r with ⟨v, w, rfl, rfl, -⟩ | ⟨v, rfl, -, h⟩ | ⟨w, -, rfl, h⟩ |
    ⟨-, -, h⟩
  · exact absurd ⟨rfl, rfl⟩ hc
  · rw [h, fromLeft?_eq_none.2 (hl v rfl), Option.getD_none]
  · rw [h, fromRight?_eq_none.2 (hr w rfl), Option.getD_none]
  · exact h

/-! ## Sums and derivatives -/

theorem folded_sum {es : List (Expr α)} (h : ∀ e ∈ es, e.Folded) : (Expr.sum es).Folded := by
  suffices ∀ first : Expr α, first.Folded → (es.foldl (· + ·) first).Folded from this _ trivial
  induction es with
  | nil => exact fun first hf => hf
  | cons e es ih =>
    intro first hf
    rw [List.forall_mem_cons] at h
    exact ih h.2 _ (folded_ofBinary hf h.1)

theorem folded_chainRule {op : UnaryOp} {arg inner : Expr α} (ha : arg.Folded)
    (hi : inner.Folded) : (chainRule op arg inner).Folded := by
  cases op with
  | neg => exact folded_ofUnary hi
  | sin => exact folded_ofBinary (folded_ofUnary ha) hi
  | cos => exact folded_ofBinary (folded_ofUnary (folded_ofUnary ha)) hi
  | tan => exact folded_ofBinary hi (folded_ofBinary (folded_ofUnary ha) trivial)
  | exp => exact folded_ofBinary (folded_ofUnary ha) hi
  | ln => exact folded_ofBinary hi ha
  | sqrt => exact folded_ofBinary hi (folded_ofBinary trivial (folded_ofUnary ha))
  | abs => exact folded_ofBinary (folded_ofUnary ha) hi
  | sign => trivial

theorem folded_diffPow {base exponent dBase dExponent : Expr α}
    (h : (binary base .pow exponent).Folded) (hb : dBase.Folded) (he : dExponent.Folded) :
    (diffPow base exponent dBase dExponent).Folded := by
  unfold diffPow
  split
  · exact folded_ofBinary (folded_ofBinary trivial (folded_ofBinary h.1 trivial)) hb
  · exact folded_ofBinary h (folded_ofBinary (folded_ofBinary he (folded_ofUnary h.1))
      (folded_ofBinary (folded_ofBinary h.2.1 hb) h.1))

theorem folded_diff (s : Symbol) {e : Expr α} (h : e.Folded) : (e.diff s).Folded := by
  induction e with
  | const v => trivial
  | sym t => trivial
  | unary op a ih =>
    rw [diff]
    split
    · split
      · trivial
      · exact folded_chainRule h.1 (ih h.1)
    · exact folded_chainRule h.1 (ih h.1)
  | binary l op r ihl ihr =>
    have hl := ihl h.1
    have hr := ihr h.2.1
    cases op with
    | add => exact folded_ofBinary hl hr
    | sub => exact folded_ofBinary hl hr
    | mul => exact folded_ofBinary (folded_ofBinary hl h.2.1) (folded_ofBinary h.1 hr)
    | div =>
      exact folded_ofBinary (folded_ofBinary hl h.2.1)
        (folded_ofBinary (folded_ofBinary h.1 hr) (folded_ofBinary h.2.1 trivial))
    | pow => exact folded_diffPow h hl hr

/-! ## Built expressions -/

/-- The expressions that the folding constructors can build from symbols and finite constants. -/
inductive Built : Expr α → Prop
  | const (v : α) (h : Scalar.isFinite v = true) : Built (const v)
  | sym (s : Symbol) : Built (sym s)
  | unary (op : UnaryOp) {a : Expr α} (h : Built a) : Built (ofUnary op a)
  | binary (op : BinaryOp) {l r : Expr α} (hl : Built l) (hr : Built r) : Built (ofBinary l op r)
  | sum {es : List (Expr α)} (h : ∀ e ∈ es, Built e) : Built (Expr.sum es)
  | diff (s : Symbol) {e : Expr α} (h : Built e) : Built (e.diff s)

theorem Built.folded {e : Expr α} (h : Built e) : e.Folded := by
  induction h with
  | const v h => trivial
  | sym s => trivial
  | unary op h ih => exact folded_ofUnary ih
  | binary op hl hr ihl ihr => exact folded_ofBinary ihl ihr
  | sum h ih => exact folded_sum ih
  | diff s h ih => exact folded_diff s ih

end Optima.Expr
