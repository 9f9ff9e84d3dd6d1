import Optima.Proofs.Expr.Compiled
import Optima.Proofs.Expr.Folded

/-!
The symbol that keeps an expression from being compiled.

* `firstUnbound?`: the first symbol, from left to right, that is not among the inputs.
* `compile_eq_error_iff`: compiling fails for that symbol and for nothing else.
* `occurrences_diff_subset`: a derivative mentions no symbol that the expression does not mention.
* `exists_compile_diff`: so the derivatives of what can be compiled can be compiled, too.
-/

namespace Optima

variable {α : Type}

/-! ## Compiling -/

/-- The first symbol, from left to right, that is not among the inputs. -/
def Expr.firstUnbound? (inputs : List Symbol) (e : Expr α) : Option Symbol :=
  e.occurrences.find? fun s => decide (s ∉ inputs)

theorem firstUnbound?_eq_none_iff {inputs : List Symbol} {e : Expr α} :
    e.firstUnbound? inputs = none ↔ e.occurrences ⊆ inputs := by
  simp [Expr.firstUnbound?, List.find?_eq_none, List.subset_def]

theorem firstUnbound?_binary (inputs : List Symbol) (l : Expr α) (op : BinaryOp) (r : Expr α) :
    (Expr.binary l op r).firstUnbound? inputs =
      (l.firstUnbound? inputs).or (r.firstUnbound? inputs) :=
  List.find?_append

theorem ofExpr_eq_error_iff {inputs : List Symbol} {e : Expr α} {error : EvalError} :
    Compiled.ofExpr inputs e = .error error ↔
      ∃ s, e.firstUnbound? inputs = some s ∧ error = .unbound s.name := by
  induction e generalizing error with
  | const v => simp [Compiled.ofExpr, Expr.firstUnbound?, Expr.occurrences]
  | sym s =>
    rw [Compiled.ofExpr]
    split
    · next i hi =>
      obtain ⟨hlt, rfl, -⟩ := List.idxOf?_eq_some_iff.1 hi
      simp [Expr.firstUnbound?, Expr.occurrences]
    · next hi =>
      have hs : s ∉ inputs := List.idxOf?_eq_none_iff.1 hi
      simp [Expr.firstUnbound?, Expr.occurrences, hs, eq_comm]
  | unary op a ih =>
    have hu : (Expr.unary op a).firstUnbound? inputs = a.firstUnbound? inputs := rfl
    rw [Compiled.ofExpr, bind_eq_error, ih, hu]
    refine ⟨?_, .inl⟩
    rintro (h | ⟨c, -, ⟨⟩⟩)
    exact h
  | binary l op r ihl ihr =>
    rw [Compiled.ofExpr, bind_eq_error, ihl, firstUnbound?_binary]
    cases hl : l.firstUnbound? inputs with
    | some s =>
      refine ⟨?_, .inl⟩
      rintro (h | ⟨cl, hcl, -⟩)
      · exact h
      · rw [ihl.2 ⟨s, hl, rfl⟩] at hcl
        cases hcl
    | none =>
      obtain ⟨cl, hcl⟩ := exists_ofExpr_iff.2 (firstUnbound?_eq_none_iff.1 hl)
      rw [Option.none_or, ← ihr]
      constructor
      · rintro (⟨s, ⟨⟩, -⟩ | ⟨c, -, h⟩)
        rcases bind_eq_error.1 h with hr | ⟨cr, -, ⟨⟩⟩
        exact hr
      · exact fun hr => .inr ⟨cl, hcl, bind_eq_error.2 (.inl hr)⟩

theorem compile_eq_error_iff {inputs : List Symbol} {e : Expr α} {error : EvalError} :
    Function.compile inputs e = .error error ↔
      ∃ s, e.firstUnbound? inputs = some s ∧ error = .unbound s.name := by
  rw [Function.compile, bind_eq_error, ofExpr_eq_error_iff]
  refine ⟨?_, .inl⟩
  rintro (h | ⟨c, -, ⟨⟩⟩)
  exact h

/-! ## Derivatives -/

namespace Expr

variable [Scalar α] {ss : List Symbol}

theorem mentions_ofUnary (op : UnaryOp) {a : Expr α} (h : a.occurrences ⊆ ss) :
    (ofUnary op a).occurrences ⊆ ss :=
  List.Subset.trans (occurrences_ofUnary_subset op a) h

theorem mentions_ofBinary (op : BinaryOp) {l r : Expr α} (hl : l.occurrences ⊆ ss)
    (hr : r.occurrences ⊆ ss) : (ofBinary l op r).occurrences ⊆ ss :=
  List.Subset.trans (occurrences_ofBinary_subset l op r) (List.append_subset.2 ⟨hl, hr⟩)

omit [Scalar α] in
theorem mentions_const (v : α) : (const v).occurrences ⊆ ss := List.nil_subset ss

theorem mentions_chainRule (op : UnaryOp) {arg inner : Expr α} (ha : arg.occurrences ⊆ ss)
    (hi : inner.occurrences ⊆ ss) : (chainRule op arg inner).occurrences ⊆ ss := by
  cases op with
  | neg => exact mentions_ofUnary _ hi
  | sin => exact mentions_ofBinary _ (mentions_ofUnary _ ha) hi
  | cos => exact mentions_ofBinary _ (mentions_ofUnary _ (mentions_ofUnary _ ha)) hi
  | tan =>
    exact mentions_ofBinary _ hi (mentions_ofBinary _ (mentions_ofUnary _ ha) (mentions_const _))
  | exp => exact mentions_ofBinary _ (mentions_ofUnary _ ha) hi
  | ln => exact mentions_ofBinary _ hi ha
  | sqrt =>
    exact mentions_ofBinary _ hi (mentions_ofBinary _ (mentions_const _) (mentions_ofUnary _ ha))
  | abs => exact mentions_ofBinary _ (mentions_ofUnary _ ha) hi
  | sign => exact mentions_const _

theorem mentions_diffPow {base exponent dBase dExponent : Expr α} (hb : base.occurrences ⊆ ss)
    (he : exponent.occurrences ⊆ ss) (hdb : dBase.occurrences ⊆ ss)
    (hde : dExponent.occurrences ⊆ ss) :
    (diffPow base exponent dBase dExponent).occurrences ⊆ ss := by
  unfold diffPow
  split
  · exact mentions_ofBinary _ (mentions_ofBinary _ (mentions_const _)
      (mentions_ofBinary _ hb (mentions_const _))) hdb
  · have hpower : (binary base .pow exponent).occurrences ⊆ ss := List.append_subset.2 ⟨hb, he⟩
    exact mentions_ofBinary _ hpower (mentions_ofBinary _
      (mentions_ofBinary _ hde (mentions_ofUnary _ hb))
      (mentions_ofBinary _ (mentions_ofBinary _ he hdb) hb))

/-- Differentiation duplicates parts of an expression and drops others; it brings in no symbol. -/
theorem mentions_diff (s : Symbol) {e : Expr α} (h : e.occurrences ⊆ ss) :
    (e.diff s).occurrences ⊆ ss := by
  induction e with
  | const v => exact mentions_const _
  | sym t => exact mentions_const _
  | unary op a ih =>
    rw [diff]
    split
    · split
      · exact mentions_const _
      · exact mentions_chainRule op h (ih h)
    · exact mentions_chainRule op h (ih h)
  | binary l op r ihl ihr =>
    obtain ⟨hl, hr⟩ := List.append_subset.1 h
    have hdl := ihl hl
    have hdr := ihr hr
    cases op with
    | add => exact mentions_ofBinary _ hdl hdr
    | sub => exact mentions_ofBinary _ hdl hdr
    | mul => exact mentions_ofBinary _ (mentions_ofBinary _ hdl hr) (mentions_ofBinary _ hl hdr)
    | div =>
      exact mentions_ofBinary _ (mentions_ofBinary _ hdl hr)
        (mentions_ofBinary _ (mentions_ofBinary _ hl hdr) (mentions_ofBinary _ hr
          (mentions_const _)))
    | pow => exact mentions_diffPow hl hr hdl hdr

theorem occurrences_diff_subset (s : Symbol) (e : Expr α) :
    (e.diff s).occurrences ⊆ e.occurrences :=
  mentions_diff s (List.Subset.refl _)

end Expr

theorem exists_compile_diff [Scalar α] {inputs : List Symbol} {e : Expr α} {f : Function α}
    (h : Function.compile inputs e = .ok f) (s : Symbol) :
    ∃ d, Function.compile inputs (e.diff s) = .ok d :=
  exists_compile_iff.2 (Expr.mentions_diff s (exists_compile_iff.1 ⟨f, h⟩))

end Optima
