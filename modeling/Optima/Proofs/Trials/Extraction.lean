import Mathlib.Data.List.TakeDrop
import Optima.Proofs.Expr.Compiled
import Optima.Trials.Extraction

/-!
What a solution that has been read off a point consists of.

* `Extracted`: each row belongs to a component, with its value at the point;
  `extracted_of_extract`: that is what extraction gives.
* `Solution.RowsUpTo`: the rows of a solution carry the names and groups of the components of a
  problem, and some decision variables may be missing at the end; `rowsUpTo_of_extract`: as many
  of them have a row as the point has coordinates.
* `Solution.Labels`: the same as long as further components may be added; `labels_of_extract`.
* `Problem.Readable`: constraints and objectives mention nothing but decision variables;
  `exists_extract`: a solution can then be read off every point of the right dimension.
* `length_of_extract`: with a constraint or an objective, off no other point.
-/

namespace Optima

variable {α : Type}

/-- How a component is told from others in a solution. -/
def Component.label (c : Component α) : Option String × Option String := (c.name, c.group)

def Row.label (row : Row α) : Option String × Option String := (row.name, row.group)

/-- The rows of the solution stand for components of the problem, in its order and from its first
component on. -/
structure Solution.Labels (solution : Solution α) (p : Problem α) : Prop where
  decisions : solution.decisions.map Row.label <+: p.decisions.map Component.label
  constraints : solution.constraints.map Row.label <+: p.constraints.map Component.label
  objectives : solution.objectives.map Row.label <+: p.objectives.map Component.label

/-- One row for each constraint and objective, and one for each of the first `n` decision variables,
in the order of the problem. -/
structure Solution.RowsUpTo (solution : Solution α) (p : Problem α) (n : Nat) : Prop where
  decisions : solution.decisions.map Row.label = (p.decisions.map Component.label).take n
  constraints : solution.constraints.map Row.label = p.constraints.map Component.label
  objectives : solution.objectives.map Row.label = p.objectives.map Component.label

theorem Solution.RowsUpTo.decisions_eq_iff {solution : Solution α} {p : Problem α} {n : Nat}
    (h : solution.RowsUpTo p n) :
    solution.decisions.map Row.label = p.decisions.map Component.label ↔
      p.decisions.length ≤ n := by
  rw [h.decisions, List.take_eq_self_iff, List.length_map]

variable [Scalar α]

/-- The solution has the value of each component at the point, and that of a decision variable is
its coordinate. -/
structure Extracted (p : Problem α) (point : List α) (solution : Solution α) : Prop where
  decisions_eq : solution.decisions = List.zipWith Component.row p.decisions point
  constraints : List.Forall₂
    (fun c row => ∃ v, Problem.evaluateAt p.symbols point c = .ok v ∧ row = c.row v)
    p.constraints solution.constraints
  objectives : List.Forall₂
    (fun c row => ∃ v, Problem.evaluateAt p.symbols point c = .ok v ∧ row = c.objectiveRow v)
    p.objectives solution.objectives

theorem forall₂_rows {symbols : List Symbol} {point : List α} {rowOf : Component α → α → Row α}
    {components : List (Component α)} {rows : List (Row α)}
    (h : (components.mapM fun c => do
      return rowOf c (← Problem.evaluateAt symbols point c)) = .ok rows) :
    List.Forall₂ (fun c row => ∃ v, Problem.evaluateAt symbols point c = .ok v ∧ row = rowOf c v)
      components rows := by
  refine (forall₂_of_mapM h).imp fun c row hrow => ?_
  obtain ⟨v, hv, ⟨⟩⟩ := bind_eq_ok.1 hrow
  exact ⟨v, hv, rfl⟩

theorem extracted_of_extract {p : Problem α} {point : List α} {solution : Solution α}
    (h : p.extract point = .ok solution) : Extracted p point solution := by
  obtain ⟨constraints, hc, h₁⟩ := bind_eq_ok.1 h
  obtain ⟨objectives, ho, ⟨⟩⟩ := bind_eq_ok.1 h₁
  exact ⟨rfl, forall₂_rows hc, forall₂_rows ho⟩

theorem map_label_zipWith_row (components : List (Component α)) (point : List α) :
    (List.zipWith Component.row components point).map Row.label =
      (components.map Component.label).take point.length := by
  induction components generalizing point with
  | nil => simp
  | cons c components ih =>
    cases point with
    | nil => rfl
    | cons v point => exact congrArg (c.label :: ·) (ih point)

omit [Scalar α] in
theorem map_label_of_forall₂ {rowOf : Component α → α → Row α} {value : Component α → α → Prop}
    (hlabel : ∀ c v, (rowOf c v).label = c.label) {components : List (Component α)}
    {rows : List (Row α)}
    (h : List.Forall₂ (fun c row => ∃ v, value c v ∧ row = rowOf c v) components rows) :
    rows.map Row.label = components.map Component.label := by
  induction h with
  | nil => rfl
  | cons hrow _ ih =>
    obtain ⟨v, -, rfl⟩ := hrow
    rw [List.map_cons, List.map_cons, ih, hlabel]

theorem rowsUpTo_of_extract {p : Problem α} {point : List α} {solution : Solution α}
    (h : p.extract point = .ok solution) : solution.RowsUpTo p point.length := by
  have he := extracted_of_extract h
  refine ⟨?_, map_label_of_forall₂ (fun _ _ => rfl) he.constraints,
    map_label_of_forall₂ (fun _ _ => rfl) he.objectives⟩
  rw [he.decisions_eq, map_label_zipWith_row]

theorem labels_of_extract {p : Problem α} {point : List α} {solution : Solution α}
    (h : p.extract point = .ok solution) : solution.Labels p := by
  obtain ⟨hdecisions, hconstraints, hobjectives⟩ := rowsUpTo_of_extract h
  refine ⟨?_, hconstraints ▸ List.prefix_rfl, hobjectives ▸ List.prefix_rfl⟩
  rw [hdecisions]
  exact List.take_prefix ..

/-! ## What can be read off -/

namespace Problem

/-- Every symbol of a constraint or of an objective is a decision variable. -/
structure Readable (p : Problem α) : Prop where
  constraints : ∀ c ∈ p.constraints, c.expression.occurrences ⊆ p.symbols
  objectives : ∀ c ∈ p.objectives, c.expression.occurrences ⊆ p.symbols

variable {p : Problem α} {point : List α} {solution : Solution α}

theorem evaluateAt_eq_ok_iff {symbols : List Symbol} {c : Component α} {v : α} :
    evaluateAt symbols point c = .ok v ↔
      c.expression.occurrences ⊆ symbols ∧ point.length = symbols.length ∧
        c.expression.eval (assignment symbols point) = v := by
  rw [← evaluate_eq_ok_iff]
  unfold evaluateAt
  cases evaluate symbols c.expression point with
  | ok w => exact ⟨fun h => by cases h; rfl, fun h => by cases h; rfl⟩
  | error e => exact ⟨nofun, nofun⟩

theorem exists_rows_iff {symbols : List Symbol} {components : List (Component α)}
    (rowOf : Component α → α → Row α) :
    (∃ rows, (components.mapM fun c => do
      return rowOf c (← evaluateAt symbols point c)) = .ok rows) ↔
      ∀ c ∈ components, ∃ v, evaluateAt symbols point c = .ok v := by
  rw [exists_mapM_eq_ok_iff]
  refine forall₂_congr fun c _ => ⟨?_, ?_⟩
  · rintro ⟨row, h⟩
    obtain ⟨v, hv, -⟩ := bind_eq_ok.1 h
    exact ⟨v, hv⟩
  · rintro ⟨v, hv⟩
    exact ⟨rowOf c v, bind_eq_ok.2 ⟨v, hv, rfl⟩⟩

/-- A solution can be read off a point if every constraint and every objective can be evaluated
there. -/
theorem exists_extract_iff :
    (∃ solution, p.extract point = .ok solution) ↔
      (∀ c ∈ p.constraints, ∃ v, evaluateAt p.symbols point c = .ok v) ∧
        ∀ c ∈ p.objectives, ∃ v, evaluateAt p.symbols point c = .ok v := by
  rw [← exists_rows_iff Component.row, ← exists_rows_iff Component.objectiveRow]
  constructor
  · rintro ⟨solution, h⟩
    obtain ⟨constraints, hc, h₁⟩ := bind_eq_ok.1 h
    obtain ⟨objectives, ho, -⟩ := bind_eq_ok.1 h₁
    exact ⟨⟨constraints, hc⟩, objectives, ho⟩
  · rintro ⟨⟨constraints, hc⟩, objectives, ho⟩
    exact ⟨_, bind_eq_ok.2 ⟨constraints, hc, bind_eq_ok.2 ⟨objectives, ho, rfl⟩⟩⟩

theorem exists_extract (h : p.Readable) (hp : point.length = p.symbols.length) :
    ∃ solution, p.extract point = .ok solution :=
  exists_extract_iff.2
    ⟨fun c hc => ⟨_, evaluateAt_eq_ok_iff.2 ⟨h.constraints c hc, hp, rfl⟩⟩,
      fun c hc => ⟨_, evaluateAt_eq_ok_iff.2 ⟨h.objectives c hc, hp, rfl⟩⟩⟩

/-- A point off which the value of any component has been read has the right dimension. -/
theorem length_of_extract (h : p.extract point = .ok solution)
    (hne : p.constraints ≠ [] ∨ p.objectives ≠ []) : point.length = p.symbols.length := by
  obtain ⟨hconstraints, hobjectives⟩ := exists_extract_iff.1 ⟨solution, h⟩
  rcases hne with hne | hne
  · obtain ⟨c, hc⟩ := List.exists_mem_of_ne_nil _ hne
    obtain ⟨v, hv⟩ := hconstraints c hc
    exact (evaluateAt_eq_ok_iff.1 hv).2.1
  · obtain ⟨c, hc⟩ := List.exists_mem_of_ne_nil _ hne
    obtain ⟨v, hv⟩ := hobjectives c hc
    exact (evaluateAt_eq_ok_iff.1 hv).2.1

end Problem

end Optima
