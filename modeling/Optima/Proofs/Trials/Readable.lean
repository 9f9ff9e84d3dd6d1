import Optima.Proofs.Expr.Sums
import Optima.Proofs.Trials.Invocations

/-!
What can be read off the points that the augmented Lagrangian method finds.

* `readable_of_compiles`: a problem is readable if its program has been compiled, since the sum of
  the objectives mentions what each of them does.
* `success_trialsFrom`: a trial that succeeds has a point of the right dimension, with the value of
  the compiled objective there.
-/

namespace Optima

variable {α : Type} [Scalar α]

/-! ## Compiled problems -/

namespace Problem

variable {p : Problem α}

theorem occurrences_objectiveExpr (p : Problem α) :
    p.objectiveExpr.occurrences =
      (p.objectives.map Component.expression).flatMap Expr.occurrences :=
  Expr.occurrences_sum _

theorem objectives_subset_iff :
    (∀ c ∈ p.objectives, c.expression.occurrences ⊆ p.symbols) ↔
      p.objectiveExpr.occurrences ⊆ p.symbols := by
  rw [occurrences_objectiveExpr]
  constructor
  · intro h s hs
    obtain ⟨e, he, hmem⟩ := List.mem_flatMap.1 hs
    obtain ⟨c, hc, rfl⟩ := List.mem_map.1 he
    exact h c hc hmem
  · intro h c hc s hs
    exact h (List.mem_flatMap.2 ⟨c.expression, List.mem_map_of_mem hc, hs⟩)

/-- The program has been compiled only if each constraint, and the sum of the objectives, mentions
nothing but decision variables. -/
theorem readable_of_compiles {model : Lagrangian.Model α} (h : model.Compiles p.program) :
    p.Readable where
  constraints := by
    intro c hc
    have hmem : c.expression ∈ p.program.constraints := List.mem_map_of_mem hc
    obtain ⟨j, hj⟩ := List.mem_iff_getElem?.1 hmem
    obtain ⟨f, -, hf⟩ := Lagrangian.exists_getElem?_of_forall₂ h.constraints hj
    exact exists_compile_iff.1 ⟨f, hf⟩
  objectives := objectives_subset_iff.2 (exists_compile_iff.1 ⟨_, h.objective⟩)

end Problem

/-! ## Trials -/

namespace Solver

variable [Printable α] {s : Solver α (Lagrangian.Handle α)} {p : Problem α}
  {h : Lagrangian.Handle α} {first : List α} {count : Nat}

/-- The instantiated method is the same in every trial. -/
theorem output_trialsFrom (hs : s.engine = Lagrangian.engine) :
    ∀ t ∈ (s.trialsFrom p count h first).value,
      t.output = (Lagrangian.solve h.model h.settings t.invocation).1 := by
  rw [trialsFrom, hs]
  refine Trials.forall_mem_run (I := fun state _ => state = h) ?_ ?_ rfl
  · rintro index state guess rfl
    rfl
  · rintro state guess rfl
    rfl

theorem success_trialsFrom (hs : s.engine = Lagrangian.engine)
    (hc : h.model.Compiles p.program) {t : Trial α}
    (ht : t ∈ (s.trialsFrom p count h first).value) (hsuccess : t.output.success = true) :
    t.output.point.length = p.symbols.length ∧
      t.output.objective = Lagrangian.valueAt h.model.objective t.output.point := by
  rw [output_trialsFrom hs t ht] at hsuccess ⊢
  exact Lagrangian.evaluated_of_success hc h.settings t.invocation hsuccess

end Solver

end Optima
