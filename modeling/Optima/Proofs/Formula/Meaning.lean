import Optima.Proofs.Expr.Meaning
import Optima.Proofs.Formula.Acceptance
import Optima.Proofs.Scalar.Double.Identities

/-!
Formulas mean what their syntax says.

The parser never builds the syntax tree of a text: it folds while it reads. What it has read is the
syntax tree built anew with the folding constructors, so that both have the same values wherever
every part of the syntax tree is finite.

* `Derivation.tree`: the syntax tree of a derivation, without any folding.
* `refold_tree`: its image is that tree, built anew.
* `folding_keeps_meaning`: values are kept by folding any tree, and so by reading a text.
-/

namespace Optima.Formula

variable {α : Type} [Scalar α]

/-! ## Syntax trees -/

/-- The items of a chain from the left, with plain nodes. -/
def chained (first : Expr α) (tail : List (BinaryOp × Expr α)) : Expr α :=
  tail.foldl (fun left (op, right) => .binary left op right) first

def callTree (name : String) (args : List (Expr α)) : Expr α :=
  match UnaryOp.ofName? name, args with
  | some op, arg :: _ => .unary op arg
  | none, base :: exponent :: _ => .binary base .pow exponent
  | _, _ => .const Scalar.nan

/-- The syntax tree of a legible derivation. -/
def Derivation.tree (scope : Scope) : {p : Phrase} → Derivation p → Value α p
  | _, sum first tail => chained (first.tree scope) (tail.tree scope)
  | _, product first tail => chained (first.tree scope) (tail.tree scope)
  | _, done => []
  | _, next _ op _ item tail => (op, item.tree scope) :: tail.tree scope
  | _, minus _ _ part => Expr.unary .neg (part.tree scope)
  | _, plus _ _ part => part.tree scope
  | _, unsigned p => p.tree scope
  | _, base a => a.tree scope
  | _, raised a _ _ exponent => Expr.binary (a.tree scope) .pow (exponent.tree scope)
  | _, number t _ => numberImage t.text
  | _, name t _ => nameImage scope t.text
  | _, call f _ args _ _ _ _ => callTree f.text (args.tree scope)
  | _, emptyCall f .. => callTree f.text []
  | _, parens _ e _ _ _ => e.tree scope
  | _, last e => [e.tree scope]
  | _, comma e _ _ rest => e.tree scope :: rest.tree scope

/-! ## Reading is folding -/

/-- All trees in what a derivation stands for, built anew. -/
def refoldValue : {p : Phrase} → Value α p → Value α p
  | .operand _, e => e.refold
  | .tail _, items => items.map fun item => (item.1, item.2.refold)
  | .arguments, es => es.map Expr.refold

theorem refold_chained (first : Expr α) (tail : List (BinaryOp × Expr α)) :
    (chained first tail).refold =
      joined first.refold (tail.map fun item => (item.1, item.2.refold)) := by
  induction tail generalizing first with
  | nil => rfl
  | cons item tail ih => exact ih (.binary first item.1 item.2)

theorem refold_numberImage (text : String) :
    (numberImage text : Expr α).refold = numberImage text := rfl

theorem refold_nameImage (scope : Scope) (name : String) :
    (nameImage scope name : Expr α).refold = nameImage scope name := by
  unfold nameImage
  split <;> rfl

theorem refold_callTree (name : String) (args : List (Expr α)) :
    (callTree name args).refold = callImage name (args.map Expr.refold) := by
  unfold callTree callImage
  cases UnaryOp.ofName? name with
  | some op => cases args <;> rfl
  | none =>
    match args with
    | [] | [_] | _ :: _ :: _ => rfl

theorem refold_tree (scope : Scope) {p : Phrase} (d : Derivation p) :
    refoldValue (d.tree scope : Value α p) = d.image scope := by
  induction d with
  | sum first tail ihf iht =>
    refine (refold_chained _ _).trans ?_
    exact congrArg₂ joined ihf iht
  | product first tail ihf iht =>
    refine (refold_chained _ _).trans ?_
    exact congrArg₂ joined ihf iht
  | done => rfl
  | next t op hj item tail ihi iht =>
    exact congrArg₂ (fun e rest => (op, e) :: rest) ihi iht
  | minus t ht part ih => exact congrArg (Expr.ofUnary .neg) ih
  | plus t ht part ih => exact ih
  | unsigned p ih => exact ih
  | base a ih => exact ih
  | raised a t ht exponent iha ihe =>
    exact congrArg₂ (fun l r => Expr.ofBinary l .pow r) iha ihe
  | number t ht => exact refold_numberImage t.text
  | name t ht => exact refold_nameImage scope t.text
  | call f l args r hf hl hr ih =>
    refine (refold_callTree _ _).trans ?_
    exact congrArg (callImage f.text) ih
  | emptyCall f l r hf hl hr => exact refold_callTree f.text []
  | parens l e r hl hr ih => exact ih
  | last e ih => exact congrArg (· :: []) ih
  | comma e t ht rest ihe ihr => exact congrArg₂ List.cons ihe ihr

/-! ## Meaning -/

variable [Functions α]

theorem beq_eval_image {scope : Scope} (d : Derivation (.operand .sum)) {env : Symbol → α}
    (h : (d.tree scope : Expr α).FiniteAt env) :
    ((d.image scope : Expr α).eval env == (d.tree scope : Expr α).eval env) = true := by
  rw [← refold_tree]
  exact (Expr.keeps_refold h).beq

/-- Where every part of a tree is finite, the tree built anew with the folding constructors has the
same value, but for the sign of a zero; under an assignment, and as a compiled function. So a text
that has been read has the value of its syntax tree wherever every part of that is finite. -/
theorem folding_keeps_meaning :
    (∀ (e : Expr α) (env : Symbol → α), e.FiniteAt env →
      (e.refold.eval env == e.eval env) = true) ∧
    (∀ (e : Expr α) (inputs : List Symbol) (values : List α) (v : α),
      e.FiniteAt (assignment inputs values) → evaluate inputs e values = .ok v →
        ∃ w, evaluate inputs e.refold values = .ok w ∧ (w == v) = true) ∧
    ∀ (scope : Scope) (text : String) (e : Expr α), parse scope text = .ok e →
      ∃ d : Derivation (.operand .sum), tokenize text = d.yield ++ [endMark text] ∧
        (∀ d' : Derivation (.operand .sum), tokenize text = d'.yield ++ [endMark text] → d' = d) ∧
        e = Expr.refold (d.tree scope) ∧
        ∀ env, Expr.FiniteAt env (d.tree scope) →
          (e.eval env == Expr.eval env (d.tree scope)) = true := by
  refine ⟨fun e env h => (Expr.keeps_refold h).beq,
    fun e inputs values v hfinite h => Expr.beq_evaluate_refold hfinite h, ?_⟩
  intro scope text e h
  obtain ⟨d, hy, -, -, rfl⟩ := derivation_of_parse h
  refine ⟨d, by rw [tokenize, hy], fun d' hd' => ?_, (refold_tree scope d).symm,
    fun env hfinite => beq_eval_image d hfinite⟩
  rw [tokenize, List.append_cancel_right_eq] at hd'
  exact Derivation.yield_injective (hd'.symm.trans hy.symm)

/-- The tree of a product with zero, whose value at a negative number is negative zero. -/
def zeroProduct : Derivation (.operand .sum) :=
  .sum
    (.product (.unsigned (.base (.number ⟨.number, ⟨0, 1⟩, "0"⟩ rfl)))
      (.next ⟨.star, ⟨2, 3⟩, "*"⟩ .mul .star
        (.unsigned (.base (.name ⟨.ident, ⟨4, 5⟩, "x"⟩ rfl))) .done))
    .done

theorem folding_keeps_meaning_zeroProduct :
    (parse (.ofList [⟨"x", 0⟩]) "0 * x" : Except Error (Expr (Double.With .truncated))) =
        .ok (.const 0) ∧
      ((0 : Double.With .truncated) == Expr.eval (fun _ => -1)
        (zeroProduct.tree (.ofList [⟨"x", 0⟩]))) = true := by
  have hparse : (parse (.ofList [⟨"x", 0⟩]) "0 * x" :
      Except Error (Expr (Double.With .truncated))) = .ok (.const 0) :=
    parse_of_derivation (d := zeroProduct) (by decide +kernel)
      ⟨⟨trivial, .inl rfl, trivial⟩, trivial⟩
  obtain ⟨d, -, hunique, -, hmeans⟩ := folding_keeps_meaning.2.2 _ _ _ hparse
  have hd : zeroProduct = d := hunique zeroProduct (by decide +kernel)
  subst hd
  exact ⟨hparse, hmeans (fun _ => -1) ⟨rfl, rfl, rfl⟩⟩

end Optima.Formula
