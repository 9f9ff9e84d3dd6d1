import Optima.Problem
import Optima.Proofs.Scalar.Arithmetic

/-!
Components with ordered bounds, and the views of a problem in the order of its components.

* `Component.Bounded`: bounds that are defined and in order; `bounded_of_ordered`,
  `bounded_objective`: created components have such bounds.
* `Component.IsVariable`, `Component.IsConstraint`: what decision variables and constraints are.
* `VariablesAligned`, `ConstraintsAligned`: entry by entry, the views describe the components;
  `variablesAligned`, `constraintsAligned`: they do so in every problem with such components.
-/

namespace Optima

variable {α : Type}

/-! ## Components -/

namespace Component

/-- The component is the decision variable of a symbol, and is named like it. -/
structure IsVariable (c : Component α) (s : Symbol) : Prop where
  kind : ∃ discrete, c.kind = .decision discrete
  expression : c.expression = .sym s
  name : c.name = some s.name

theorem IsVariable.symbol? {c : Component α} {s : Symbol} (h : c.IsVariable s) :
    c.symbol? = some s := by
  obtain ⟨discrete, hkind⟩ := h.kind
  rw [Component.symbol?, hkind, h.expression]

/-- The component is a constraint with a name. -/
structure IsConstraint (c : Component α) : Prop where
  kind : c.kind = .constraint
  name : ∃ name, c.name = some name

variable [Scalar α]

/-- Both bounds are defined, and they are in order. -/
def Bounded (c : Component α) : Prop :=
  Scalar.isNaN c.lower = false ∧ Scalar.isNaN c.upper = false ∧ c.lower ≤ c.upper

theorem bounded_of_ordered [Ordered α] {c : Component α} (h : ordered c.lower c.upper = true) :
    c.Bounded := by
  simp only [ordered, Bool.not_eq_true', Bool.or_eq_false_iff, decide_eq_false_iff_not] at h
  obtain ⟨⟨hl, hu⟩, hlt⟩ := h
  exact ⟨hl, hu, (Ordered.not_lt hu hl).1 hlt⟩

theorem bounded_objective [Arithmetic α] (expression : Expr α) (name group : Option String) :
    (objective expression name group).Bounded := by
  have hzero := Arithmetic.isFinite_zero (α := α)
  simp only [Scalar.isFinite, Bool.and_eq_true, decide_eq_true_eq] at hzero
  have hle := Ordered.le_of_lt (Ordered.lt_of_lt_of_le hzero.1 (Ordered.le_of_lt hzero.2))
  obtain ⟨hl, hu⟩ := Ordered.defined_of_le hle
  exact ⟨hl, hu, hle⟩

end Component

namespace Problem

/-! ## Symbols -/

variable {p : Problem α}

/-- No decision variable is lost among the symbols. -/
theorem map_symbol? {components : List (Component α)}
    (h : ∀ c ∈ components, ∃ s, c.IsVariable s) :
    components.map Component.symbol? = (components.filterMap Component.symbol?).map some := by
  induction components with
  | nil => rfl
  | cons c components ih =>
    obtain ⟨⟨s, hs⟩, hrest⟩ := List.forall_mem_cons.1 h
    rw [List.map_cons, ih hrest, List.filterMap_cons_some hs.symbol?, List.map_cons, hs.symbol?]

theorem length_symbols (h : ∀ c ∈ p.decisions, ∃ s, c.IsVariable s) :
    p.symbols.length = p.decisions.length := by
  have hlength := congrArg List.length (map_symbol? h)
  rw [List.length_map, List.length_map] at hlength
  exact hlength.symm

theorem getElem?_symbols (h : ∀ c ∈ p.decisions, ∃ s, c.IsVariable s) {i : Nat}
    {c : Component α} (hc : p.decisions[i]? = some c) :
    ∃ s, c.IsVariable s ∧ p.symbols[i]? = some s := by
  obtain ⟨s, hs⟩ := h c (List.mem_of_getElem? hc)
  refine ⟨s, hs, ?_⟩
  have hat := congrArg (·[i]?) (map_symbol? h)
  simp only [List.getElem?_map, hc, Option.map_some, hs.symbol?] at hat
  obtain ⟨s', hs', heq⟩ := Option.map_eq_some_iff.1 hat.symm
  cases heq
  exact hs'

/-! ## Views -/

theorem getElem?_namesOf {components : List (Component α)} {i : Nat} {c : Component α}
    {name : String} (hc : components[i]? = some c) (hname : c.name = some name) :
    (namesOf components)[i]? = some name := by
  rw [namesOf, List.getElem?_map, hc, Option.map_some, hname, Option.getD_some]

theorem getElem?_boxOf {components : List (Component α)} {i : Nat} {c : Component α}
    (hc : components[i]? = some c) :
    (boxOf components).lower[i]? = some c.lower ∧ (boxOf components).upper[i]? = some c.upper := by
  simp [boxOf, hc]

variable [Scalar α]

/-- The views of the decision variables have one entry for each of them, which describes it. -/
structure VariablesAligned (p : Problem α) : Prop where
  length_symbols : p.symbols.length = p.decisions.length
  length_program : p.program.decisions.length = p.decisions.length
  length_lower : p.variableBox.lower.length = p.decisions.length
  length_upper : p.variableBox.upper.length = p.decisions.length
  length_names : (namesOf p.decisions).length = p.decisions.length
  at_place : ∀ (i : Nat) (c : Component α), p.decisions[i]? = some c →
    ∃ s, c.IsVariable s ∧ p.symbols[i]? = some s ∧ p.program.decisions[i]? = some s ∧
      p.variableBox.lower[i]? = some c.lower ∧ p.variableBox.upper[i]? = some c.upper ∧
      (namesOf p.decisions)[i]? = some s.name

/-- The same for the constraints. -/
structure ConstraintsAligned (p : Problem α) : Prop where
  length_program : p.program.constraints.length = p.constraints.length
  length_lower : p.constraintBox.lower.length = p.constraints.length
  length_upper : p.constraintBox.upper.length = p.constraints.length
  length_names : (namesOf p.constraints).length = p.constraints.length
  at_place : ∀ (j : Nat) (c : Component α), p.constraints[j]? = some c →
    ∃ name, c.name = some name ∧ (namesOf p.constraints)[j]? = some name ∧
      p.program.constraints[j]? = some c.expression ∧
      p.constraintBox.lower[j]? = some c.lower ∧ p.constraintBox.upper[j]? = some c.upper

theorem variablesAligned (h : ∀ c ∈ p.decisions, ∃ s, c.IsVariable s) : p.VariablesAligned where
  length_symbols := length_symbols h
  length_program := length_symbols h
  length_lower := List.length_map ..
  length_upper := List.length_map ..
  length_names := List.length_map ..
  at_place := by
    intro i c hc
    obtain ⟨s, hs, hat⟩ := getElem?_symbols h hc
    obtain ⟨hlower, hupper⟩ := getElem?_boxOf hc
    exact ⟨s, hs, hat, hat, hlower, hupper, getElem?_namesOf hc hs.name⟩

theorem constraintsAligned (h : ∀ c ∈ p.constraints, c.IsConstraint) : p.ConstraintsAligned where
  length_program := List.length_map ..
  length_lower := List.length_map ..
  length_upper := List.length_map ..
  length_names := List.length_map ..
  at_place := by
    intro j c hc
    obtain ⟨name, hname⟩ := (h c (List.mem_of_getElem? hc)).name
    obtain ⟨hlower, hupper⟩ := getElem?_boxOf hc
    refine ⟨name, hname, getElem?_namesOf hc hname, ?_, hlower, hupper⟩
    show (p.constraints.map Component.expression)[j]? = some c.expression
    rw [List.getElem?_map, hc, Option.map_some]

end Problem

end Optima
