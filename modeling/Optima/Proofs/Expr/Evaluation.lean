import Optima.Proofs.Checked
import Optima.Proofs.Expr.Unbound

/-!
Evaluating an expression once: compiling it and calling the result is evaluating it directly.

* `firstUnbound?_eq_some_iff`: in front of the first symbol that is not an input, all symbols are.
* `evaluate_eq_error_iff`: such a symbol goes before a wrong number of values.
* `exists_first_position`: an input has the value at its first position.
* `idxOf?_map_id`: symbols that their ids tell apart are looked up by id.
* `lt_arity_of_compile`: no position in a compiled expression is outside of its inputs.
* `evaluate_outcome`: what comes of evaluating any expression at any values.
-/

namespace Optima

variable {α : Type}

/-! ## Failures -/

theorem firstUnbound?_eq_some_iff {inputs : List Symbol} {e : Expr α} {s : Symbol} :
    e.firstUnbound? inputs = some s ↔
      ∃ before after, e.occurrences = before ++ s :: after ∧ before ⊆ inputs ∧ s ∉ inputs := by
  rw [Expr.firstUnbound?, List.find?_eq_some_iff_append]
  constructor
  · rintro ⟨hs, before, after, hsplit, hbefore⟩
    refine ⟨before, after, hsplit, fun t ht => ?_, of_decide_eq_true hs⟩
    simpa using hbefore t ht
  · rintro ⟨before, after, hsplit, hbefore, hs⟩
    refine ⟨decide_eq_true hs, before, after, hsplit, fun t ht => ?_⟩
    simpa using hbefore ht

variable [Scalar α]

/-- The symbols are looked at before the values. -/
theorem evaluate_eq_error_iff {inputs : List Symbol} {e : Expr α} {values : List α}
    {error : EvalError} :
    evaluate inputs e values = .error error ↔
      (∃ s, e.firstUnbound? inputs = some s ∧ error = .unbound s.name) ∨
        e.occurrences ⊆ inputs ∧ values.length ≠ inputs.length ∧
          error = .arity inputs.length values.length := by
  rw [evaluate, bind_eq_error, compile_eq_error_iff]
  refine or_congr_right ⟨?_, ?_⟩
  · rintro ⟨f, hf, hcall⟩
    obtain ⟨hlength, rfl⟩ := Function.call_eq_error_iff.1 hcall
    rw [Function.arity, (compile_eq_ok.1 hf).1] at hlength ⊢
    exact ⟨exists_compile_iff.1 ⟨f, hf⟩, hlength, rfl⟩
  · rintro ⟨hsubset, hlength, rfl⟩
    obtain ⟨f, hf⟩ := exists_compile_iff.2 hsubset
    refine ⟨f, hf, Function.call_eq_error_iff.2 ?_⟩
    rw [Function.arity, (compile_eq_ok.1 hf).1]
    exact ⟨hlength, rfl⟩

/-! ## Positions -/

theorem exists_first_position {inputs : List Symbol} {values : List α}
    (hlength : values.length = inputs.length) {s : Symbol} (hs : s ∈ inputs) :
    ∃ i : Nat, inputs[i]? = some s ∧ (∀ j < i, inputs[j]? ≠ some s) ∧
      values[i]? = some (assignment inputs values s) := by
  obtain ⟨i, hi⟩ : ∃ i, inputs.idxOf? s = some i := by
    cases hi : inputs.idxOf? s with
    | some i => exact ⟨i, rfl⟩
    | none => exact absurd hs (List.idxOf?_eq_none_iff.1 hi)
  obtain ⟨hlt, hat, hfirst⟩ := List.idxOf?_eq_some_iff.1 hi
  refine ⟨i, hat ▸ List.getElem?_eq_getElem hlt, fun j hj hjs => ?_, ?_⟩
  · exact hfirst j hj (List.getElem?_eq_some_iff.1 hjs).2
  · have hvalue : i < values.length := hlength ▸ hlt
    simp [assignment, hi, hvalue]

omit [Scalar α] in
/-- A symbol stands for its id if no other input has that. -/
theorem idxOf?_map_id {inputs : List Symbol} {s : Symbol} (h : ∀ t ∈ inputs, t.id = s.id → t = s) :
    (inputs.map Symbol.id).idxOf? s.id = inputs.idxOf? s := by
  induction inputs with
  | nil => rfl
  | cons t inputs ih =>
    obtain ⟨ht, hrest⟩ := List.forall_mem_cons.1 h
    rw [List.map_cons, List.idxOf?_cons, List.idxOf?_cons, ih hrest]
    by_cases hid : t.id = s.id
    · simp [ht hid]
    · have hne : t ≠ s := fun hts => hid (congrArg Symbol.id hts)
      simp [hid, hne]

omit [Scalar α] in
theorem lt_of_mem_positions {inputs : List Symbol} {e : Expr α} {c : Compiled α}
    (h : Compiled.ofExpr inputs e = .ok c) : ∀ i ∈ c.positions, i < inputs.length := by
  induction e generalizing c with
  | const v =>
    cases h
    exact List.forall_mem_nil _
  | sym s =>
    rw [Compiled.ofExpr] at h
    split at h
    · next i hi =>
      cases h
      obtain ⟨hlt, -⟩ := List.idxOf?_eq_some_iff.1 hi
      exact List.forall_mem_singleton.2 hlt
    · cases h
  | unary op a ih =>
    obtain ⟨c', ha, ⟨⟩⟩ := bind_eq_ok.1 h
    change ∀ i ∈ c'.positions, i < inputs.length
    exact ih ha
  | binary l op r ihl ihr =>
    obtain ⟨cl, hl, h₁⟩ := bind_eq_ok.1 h
    obtain ⟨cr, hr, ⟨⟩⟩ := bind_eq_ok.1 h₁
    exact List.forall_mem_append.2 ⟨ihl hl, ihr hr⟩

omit [Scalar α] in
theorem lt_arity_of_compile {inputs : List Symbol} {e : Expr α} {f : Function α}
    (h : Function.compile inputs e = .ok f) : ∀ i ∈ f.body.positions, i < f.arity := by
  obtain ⟨hinputs, hbody⟩ := compile_eq_ok.1 h
  rw [Function.arity, hinputs]
  exact lt_of_mem_positions hbody

/-! ## All outcomes -/

/-- An evaluation fails for the first symbol from the left that is not an input, whatever the values
are; if there is none, for a wrong number of values; and otherwise it gives the value of the
expression, in which each symbol has the value at its first position among the inputs. A compiled
expression reads none but the values it is called with. -/
theorem evaluate_outcome (inputs : List Symbol) (e : Expr α) (values : List α) :
    (∀ name, evaluate inputs e values = .error (.unbound name) ↔
      ∃ before s after, e.occurrences = before ++ s :: after ∧ before ⊆ inputs ∧ s ∉ inputs ∧
        name = s.name) ∧
    (∀ expected found, evaluate inputs e values = .error (.arity expected found) ↔
      e.occurrences ⊆ inputs ∧ values.length ≠ inputs.length ∧
        expected = inputs.length ∧ found = values.length) ∧
    (∀ v, evaluate inputs e values = .ok v ↔
      e.occurrences ⊆ inputs ∧ values.length = inputs.length ∧
        e.eval (assignment inputs values) = v) ∧
    (values.length = inputs.length → ∀ s ∈ inputs,
      ∃ i : Nat, inputs[i]? = some s ∧ (∀ j < i, inputs[j]? ≠ some s) ∧
        values[i]? = some (assignment inputs values s)) ∧
    (∀ s : Symbol, (∀ t ∈ inputs, t.id = s.id → t = s) →
      (inputs.map Symbol.id).idxOf? s.id = inputs.idxOf? s) ∧
    ∀ f : Function α, Function.compile inputs e = .ok f →
      (∀ i ∈ f.body.positions, i < f.arity) ∧
        ∀ point : List α, point.length = f.arity →
          f.body.eval? point = some (f.body.eval point) := by
  refine ⟨fun name => ?_, fun expected found => ?_, fun v => evaluate_eq_ok_iff,
    fun hlength s hs => exists_first_position hlength hs, fun s hs => idxOf?_map_id hs,
    fun f hf => ⟨lt_arity_of_compile hf, fun point hpoint => ?_⟩⟩
  · rw [evaluate_eq_error_iff]
    constructor
    · rintro (⟨s, hs, hname⟩ | ⟨-, -, ⟨⟩⟩)
      obtain ⟨before, after, hsplit, hbefore, hs⟩ := firstUnbound?_eq_some_iff.1 hs
      exact ⟨before, s, after, hsplit, hbefore, hs, EvalError.unbound.inj hname⟩
    · rintro ⟨before, s, after, hsplit, hbefore, hs, rfl⟩
      exact .inl ⟨s, firstUnbound?_eq_some_iff.2 ⟨before, after, hsplit, hbefore, hs⟩, rfl⟩
  · rw [evaluate_eq_error_iff]
    constructor
    · rintro (⟨s, -, ⟨⟩⟩ | ⟨hsubset, hlength, harity⟩)
      exact ⟨hsubset, hlength, EvalError.arity.inj harity⟩
    · rintro ⟨hsubset, hlength, rfl, rfl⟩
      exact .inr ⟨hsubset, hlength, rfl⟩
  · obtain ⟨hinputs, hbody⟩ := compile_eq_ok.1 hf
    rw [Function.arity, hinputs] at hpoint
    exact eval?_of_ofExpr hbody hpoint

/-- A symbol that is not an input is reported before the missing value. -/
example : evaluate [⟨"x", 0⟩] (.binary (.sym ⟨"x", 0⟩) .add (.sym ⟨"x", 1⟩)) ([] : List α) =
    .error (.unbound "x") := rfl

end Optima
