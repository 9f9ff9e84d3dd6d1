import Optima.Engine
import Optima.Proofs.Expr.Unbound
import Optima.Proofs.Lagrangian.Model
import Optima.Scalar.Double

/-!
Which programs the augmented Lagrangian method can be instantiated for.

* `Program.firstUnbound?`: the first symbol that is not a variable, in the objective or, if that has
  none, in the constraints in their order.
* `exists_compileRow`: the Jacobian row of a constraint that can be compiled can be compiled.
* `Model.compile_eq_error_iff`: a program fails to compile for its first unbound symbol, and the
  derivatives are never the reason.
* `instantiation_fails_iff`: so does the method for the program.
-/

namespace Optima

variable {α : Type}

/-- The first symbol that is not a variable; the objective is looked at before the constraints. -/
def Program.firstUnbound? (p : Program α) : Option Symbol :=
  (p.objective :: p.constraints).findSome? (Expr.firstUnbound? p.decisions)

theorem Program.isSome_firstUnbound?_iff {p : Program α} :
    p.firstUnbound?.isSome = true ↔
      ∃ e ∈ p.objective :: p.constraints, ∃ s ∈ e.occurrences, s ∉ p.decisions := by
  simp [Program.firstUnbound?, Expr.firstUnbound?, List.findSome?_isSome_iff]

namespace Lagrangian

variable [Scalar α] {p : Program α}

/-! ## Derivatives -/

theorem exists_compileRow {decisions : List Symbol} {g : Expr α} {f : Function α}
    (h : Function.compile decisions g = .ok f) : ∃ row, compileRow decisions g = .ok row := by
  rw [compileRow, exists_mapM_eq_ok_iff]
  rintro ⟨s, i⟩ -
  obtain ⟨d, hd⟩ := exists_compile_diff h s
  exact ⟨(i, d), bind_eq_ok.2 ⟨d, hd, rfl⟩⟩

theorem exists_compileGradient {decisions : List Symbol} {e : Expr α} {f : Function α}
    (h : Function.compile decisions e = .ok f) (ss : List Symbol) :
    ∃ ds, (e.gradient ss).mapM (Function.compile decisions) = .ok ds := by
  rw [exists_mapM_eq_ok_iff]
  intro d hd
  obtain ⟨s, -, rfl⟩ := List.mem_map.1 hd
  exact exists_compile_diff h s

theorem exists_compileJacobian {decisions : List Symbol} {gs : List (Expr α)}
    {cs : List (Function α)} (h : gs.mapM (Function.compile decisions) = .ok cs) :
    ∃ rows, gs.mapM (compileRow decisions) = .ok rows := by
  rw [exists_mapM_eq_ok_iff]
  intro g hg
  obtain ⟨f, hf⟩ := exists_mapM_eq_ok_iff.1 ⟨cs, h⟩ g hg
  exact exists_compileRow hf

/-! ## Programs -/

theorem Model.compile_eq_error_iff {error : EvalError} :
    Model.compile p = .error error ↔ ∃ s, p.firstUnbound? = some s ∧ error = .unbound s.name := by
  rw [Model.compile, bind_eq_error, Optima.compile_eq_error_iff, Program.firstUnbound?,
    List.findSome?_cons]
  cases ho : p.objective.firstUnbound? p.decisions with
  | some s =>
    refine ⟨?_, .inl⟩
    rintro (h | ⟨objective, hobjective, -⟩)
    · exact h
    · rw [Optima.compile_eq_error_iff.2 ⟨s, ho, rfl⟩] at hobjective
      cases hobjective
  | none =>
    obtain ⟨objective, hobjective⟩ := exists_compile_iff.2 (firstUnbound?_eq_none_iff.1 ho)
    obtain ⟨gradient, hgradient⟩ := exists_compileGradient hobjective p.decisions
    have hconstraints : p.constraints.mapM (Function.compile p.decisions) = .error error ↔
        ∃ s, p.constraints.findSome? (Expr.firstUnbound? p.decisions) = some s ∧
          error = .unbound s.name :=
      mapM_eq_error_iff fun g error => Optima.compile_eq_error_iff
    rw [← hconstraints]
    constructor
    · rintro (⟨s, ⟨⟩, -⟩ | ⟨objective', -, h₁⟩)
      rcases bind_eq_error.1 h₁ with hg | ⟨gradient', -, h₂⟩
      · rw [hgradient] at hg
        cases hg
      · rcases bind_eq_error.1 h₂ with hc | ⟨constraints, hc, h₃⟩
        · exact hc
        · -- Only the rows of the Jacobian are left, and those of compiled constraints compile.
          obtain ⟨rows, hrows⟩ := exists_compileJacobian hc
          rw [hrows] at h₃
          cases h₃
    · exact fun hc => .inr ⟨objective, hobjective, bind_eq_error.2
        (.inr ⟨gradient, hgradient, bind_eq_error.2 (.inl hc)⟩)⟩

theorem Handle.compile_eq_error_iff {settings : Settings α} {error : EngineError α} :
    Handle.compile p settings = .error error ↔
      ∃ e, Model.compile p = .error e ∧ error = .expression e := by
  unfold Handle.compile
  cases Model.compile p with
  | ok model =>
    constructor
    · rintro ⟨⟩
    · rintro ⟨e, ⟨⟩, -⟩
  | error e =>
    constructor
    · rintro ⟨⟩
      exact ⟨e, rfl, rfl⟩
    · rintro ⟨e', ⟨⟩, rfl⟩
      rfl

/-- The method cannot be instantiated for a program if and only if the objective or a constraint
mentions a symbol that is not a variable. The error then names the first such symbol; derivatives
mention nothing new and never fail to compile. -/
theorem instantiation_fails_iff (p : Program α) (settings : Settings α) :
    ((∃ error, Handle.compile p settings = .error error) ↔
        ∃ e ∈ p.objective :: p.constraints, ∃ s ∈ e.occurrences, s ∉ p.decisions) ∧
      (∀ error, Handle.compile p settings = .error error ↔
        ∃ s, p.firstUnbound? = some s ∧ error = .expression (.unbound s.name)) ∧
      ∀ (e : Expr α) (s : Symbol), (e.diff s).occurrences ⊆ e.occurrences ∧
        ∀ (inputs : List Symbol) (f : Function α), Function.compile inputs e = .ok f →
          ∃ d, Function.compile inputs (e.diff s) = .ok d := by
  have hnamed (error : EngineError α) : Handle.compile p settings = .error error ↔
      ∃ s, p.firstUnbound? = some s ∧ error = .expression (.unbound s.name) := by
    rw [Handle.compile_eq_error_iff]
    constructor
    · rintro ⟨e, he, rfl⟩
      obtain ⟨s, hs, rfl⟩ := Model.compile_eq_error_iff.1 he
      exact ⟨s, hs, rfl⟩
    · rintro ⟨s, hs, rfl⟩
      exact ⟨_, Model.compile_eq_error_iff.2 ⟨s, hs, rfl⟩, rfl⟩
  refine ⟨?_, hnamed, fun e s => ⟨Expr.occurrences_diff_subset s e, fun _ _ hf =>
    exists_compile_diff hf s⟩⟩
  rw [← Program.isSome_firstUnbound?_iff, Option.isSome_iff_exists]
  constructor
  · rintro ⟨error, he⟩
    obtain ⟨s, hs, -⟩ := (hnamed error).1 he
    exact ⟨s, hs⟩
  · rintro ⟨s, hs⟩
    exact ⟨_, (hnamed _).2 ⟨s, hs, rfl⟩⟩

/-- The objective and the first constraint mention the variable only; the second constraint mentions
two more symbols, one of which has the name of the variable. -/
def danglingProgram : Program Float :=
  let x : Expr Float := .sym ⟨"x", 0⟩
  ⟨[⟨"x", 0⟩], .binary x .mul x, [x, .binary (.sym ⟨"x", 1⟩) .add (.sym ⟨"y", 2⟩)]⟩

theorem instantiation_fails_iff_dangling :
    Handle.compile danglingProgram Settings.default = .error (.expression (.unbound "x")) ∧
      ∃ d, Function.compile danglingProgram.decisions
        (danglingProgram.objective.diff ⟨"x", 0⟩) = .ok d := by
  obtain ⟨-, hnamed, hdiff⟩ := instantiation_fails_iff danglingProgram Settings.default
  have hf : Function.compile danglingProgram.decisions danglingProgram.objective =
      .ok ⟨[⟨"x", 0⟩], .binary (.input 0) .mul (.input 0)⟩ := rfl
  exact ⟨(hnamed _).2 ⟨⟨"x", 1⟩, rfl, rfl⟩, (hdiff _ _).2 _ _ hf⟩

end Lagrangian

end Optima
