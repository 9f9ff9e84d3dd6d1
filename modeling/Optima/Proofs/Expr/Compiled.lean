import Mathlib.Data.List.Nodup
import Optima.Expr.Compiled
import Optima.Proofs.Except

/-!
Compiled expressions mean what the expressions do.

* `assignment`: the scalars that symbols get from an ordered list of inputs and a list of values.
* `eval_of_ofExpr`, `call_of_compile`: a compiled expression evaluates like the expression under
  that assignment.
* `exists_compile_iff`: an expression can be compiled if and only if all its symbols are inputs.
* `evaluate_eq_ok_iff`: it can be evaluated if there are as many values as inputs, too.
-/

namespace Optima

variable {α : Type} [Scalar α]

/-- Each symbol has the value at its first position among the inputs. -/
def assignment (inputs : List Symbol) (values : List α) (s : Symbol) : α :=
  match inputs.idxOf? s with
  | some i => values.getD i Scalar.nan
  | none => Scalar.nan

theorem assignment_at {inputs : List Symbol} {values : List α} {i : Nat} {s : Symbol} {v : α}
    (hd : inputs.Nodup) (hs : inputs[i]? = some s) (hv : values[i]? = some v) :
    assignment inputs values s = v := by
  have hi : inputs.idxOf? s = some i := by
    obtain ⟨hlt, rfl⟩ := List.getElem?_eq_some_iff.1 hs
    rw [List.idxOf?_eq_some_iff]
    refine ⟨hlt, rfl, fun j hj he => ?_⟩
    exact absurd ((List.Nodup.getElem_inj_iff hd).1 he) (Nat.ne_of_lt hj)
  simp [assignment, hi, hv]

theorem eval_of_ofExpr {inputs : List Symbol} {e : Expr α} {c : Compiled α}
    (h : Compiled.ofExpr inputs e = .ok c) (values : List α) :
    c.eval values = e.eval (assignment inputs values) := by
  induction e generalizing c with
  | const v =>
    cases h
    rfl
  | sym s =>
    rw [Compiled.ofExpr] at h
    split at h
    · next i hi =>
      cases h
      simp [Compiled.eval, Expr.eval, assignment, hi]
    · cases h
  | unary op a ih =>
    obtain ⟨c', ha, ⟨⟩⟩ := bind_eq_ok.1 h
    rw [Compiled.eval, ih ha, Expr.eval]
  | binary l op r ihl ihr =>
    obtain ⟨cl, hl, h₁⟩ := bind_eq_ok.1 h
    obtain ⟨cr, hr, ⟨⟩⟩ := bind_eq_ok.1 h₁
    rw [Compiled.eval, ihl hl, ihr hr, Expr.eval]

omit [Scalar α] in
theorem compile_eq_ok {inputs : List Symbol} {e : Expr α} {f : Function α} :
    Function.compile inputs e = .ok f ↔
      f.inputs = inputs ∧ Compiled.ofExpr inputs e = .ok f.body := by
  refine bind_eq_ok.trans ⟨?_, ?_⟩
  · rintro ⟨c, hc, ⟨⟩⟩
    exact ⟨rfl, hc⟩
  · rintro ⟨rfl, hb⟩
    exact ⟨f.body, hb, rfl⟩

theorem evaluate_of_compile {inputs : List Symbol} {e : Expr α} {f : Function α}
    (h : Function.compile inputs e = .ok f) (values : List α) :
    evaluate inputs e values = f.call values := by
  unfold evaluate
  rw [h]
  rfl

theorem eval_of_evaluate {inputs : List Symbol} {e : Expr α} {values : List α} {v : α}
    (h : evaluate inputs e values = .ok v) : e.eval (assignment inputs values) = v := by
  obtain ⟨f, hf, hc⟩ := bind_eq_ok.1 h
  obtain ⟨-, rfl⟩ := Function.call_eq_ok_iff.1 hc
  exact (eval_of_ofExpr (compile_eq_ok.1 hf).2 values).symm

theorem call_of_compile {inputs : List Symbol} {e : Expr α} {f : Function α}
    (h : Function.compile inputs e = .ok f) {values : List α}
    (hv : values.length = inputs.length) :
    f.call values = .ok (e.eval (assignment inputs values)) := by
  obtain ⟨hi, hb⟩ := compile_eq_ok.1 h
  rw [Function.call_eq_ok_iff]
  exact ⟨by rw [Function.arity, hi, hv], eval_of_ofExpr hb values⟩

/-! ## What can be compiled -/

omit [Scalar α] in
theorem exists_ofExpr_iff {inputs : List Symbol} {e : Expr α} :
    (∃ c, Compiled.ofExpr inputs e = .ok c) ↔ e.occurrences ⊆ inputs := by
  induction e with
  | const v => exact ⟨fun _ => List.nil_subset _, fun _ => ⟨.const v, rfl⟩⟩
  | sym s =>
    simp only [Compiled.ofExpr, Expr.occurrences, List.cons_subset, List.nil_subset, and_true]
    split
    · next i hi =>
      obtain ⟨hlt, rfl, -⟩ := List.idxOf?_eq_some_iff.1 hi
      exact ⟨fun _ => List.getElem_mem hlt, fun _ => ⟨.input i, rfl⟩⟩
    · next hi =>
      refine ⟨?_, fun h => absurd h (List.idxOf?_eq_none_iff.1 hi)⟩
      rintro ⟨c, ⟨⟩⟩
  | unary op a ih =>
    rw [Expr.occurrences, ← ih]
    constructor
    · rintro ⟨c, h⟩
      obtain ⟨ca, ha, -⟩ := bind_eq_ok.1 h
      exact ⟨ca, ha⟩
    · rintro ⟨ca, ha⟩
      exact ⟨.unary op ca, bind_eq_ok.2 ⟨ca, ha, rfl⟩⟩
  | binary l op r ihl ihr =>
    rw [Expr.occurrences, List.append_subset, ← ihl, ← ihr]
    constructor
    · rintro ⟨c, h⟩
      obtain ⟨cl, hl, h₁⟩ := bind_eq_ok.1 h
      obtain ⟨cr, hr, -⟩ := bind_eq_ok.1 h₁
      exact ⟨⟨cl, hl⟩, cr, hr⟩
    · rintro ⟨⟨cl, hl⟩, cr, hr⟩
      exact ⟨.binary cl op cr, bind_eq_ok.2 ⟨cl, hl, bind_eq_ok.2 ⟨cr, hr, rfl⟩⟩⟩

omit [Scalar α] in
theorem exists_compile_iff {inputs : List Symbol} {e : Expr α} :
    (∃ f, Function.compile inputs e = .ok f) ↔ e.occurrences ⊆ inputs := by
  rw [← exists_ofExpr_iff]
  constructor
  · rintro ⟨f, hf⟩
    exact ⟨f.body, (compile_eq_ok.1 hf).2⟩
  · rintro ⟨c, hc⟩
    exact ⟨⟨inputs, c⟩, compile_eq_ok.2 ⟨rfl, hc⟩⟩

/-- What it takes to evaluate an expression, and what comes of it. -/
theorem evaluate_eq_ok_iff {inputs : List Symbol} {e : Expr α} {values : List α} {v : α} :
    evaluate inputs e values = .ok v ↔
      e.occurrences ⊆ inputs ∧ values.length = inputs.length ∧
        e.eval (assignment inputs values) = v := by
  constructor
  · intro h
    obtain ⟨f, hf, hcall⟩ := bind_eq_ok.1 h
    have hinputs := (compile_eq_ok.1 hf).1
    refine ⟨exists_compile_iff.1 ⟨f, hf⟩, ?_, eval_of_evaluate h⟩
    rw [(Function.call_eq_ok_iff.1 hcall).1, Function.arity, hinputs]
  · rintro ⟨hsubset, hlength, rfl⟩
    obtain ⟨f, hf⟩ := exists_compile_iff.2 hsubset
    rw [evaluate_of_compile hf, call_of_compile hf hlength]

end Optima
