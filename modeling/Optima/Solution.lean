import Optima.Scalar

/-!
Solutions: the values of the components of a solved problem, one row for each component in the order
of the problem, and views of them.

* `Row.select`: the rows of one group, or all rows.
* `Row.keyed`: what rows hold, by name; a later row of a name replaces an earlier one.
* `Solution.objectiveSum`: the minimized quantity.
-/

namespace Optima

/-- What a solution says of one component. -/
structure Row (α : Type) where
  name : Option String
  group : Option String
  /-- Not set before the component has been evaluated. -/
  value : Option α
  lowerActive : Bool
  upperActive : Bool
  deriving Repr

structure Solution (α : Type) where
  decisions : List (Row α)
  constraints : List (Row α)
  objectives : List (Row α)
  deriving Repr

namespace Row

variable {α β : Type}

/-- The value, undefined if it is not set. -/
def number [Scalar α] (row : Row α) : α := row.value.getD Scalar.nan

/-- The rows of a group; without a group, all rows. -/
def select (rows : List (Row α)) (group : Option String) : List (Row α) :=
  rows.filter fun row => group.isNone || row.group == group

/-- What each row of a group holds. -/
def listed (view : Row α → β) (rows : List (Row α)) (group : Option String) : List β :=
  (select rows group).map view

/-- Adds a name, or replaces what it stands for. -/
def enter (entries : List (String × β)) (name : String) (b : β) : List (String × β) :=
  entries.filter (fun entry => entry.1 != name) ++ [(name, b)]

/-- What the named rows of a group hold, each name once. -/
def keyed (view : Row α → β) (rows : List (Row α)) (group : Option String) : List (String × β) :=
  (select rows group).foldl
    (fun entries row =>
      match row.name with
      | some name => enter entries name (view row)
      | none => entries)
    []

theorem select_none (rows : List (Row α)) : select rows none = rows := by
  simp [select]

theorem mem_select {rows : List (Row α)} {group : String} {row : Row α} :
    row ∈ select rows (some group) ↔ row ∈ rows ∧ row.group = some group := by
  simp [select]

end Row

/-- The sum of the objective values of a group; without a group, of all of them. -/
def Solution.objectiveSum {α : Type} [Scalar α] (s : Solution α) (group : Option String) : α :=
  Scalar.sum (Row.listed Row.number s.objectives group)

end Optima
