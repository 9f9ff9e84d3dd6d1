import Optima.Symbol

/-!
Scopes: the symbols that a formula can name. A later symbol hides an earlier one of its name.

* `find?_insert`: the last symbol of a name is the one that is found.
-/

namespace Optima.Formula

/-- The visible symbols, the latest first, no two of one name. -/
structure Scope where
  symbols : List Symbol := []
  deriving Repr

namespace Scope

def insert (scope : Scope) (s : Symbol) : Scope :=
  ⟨s :: scope.symbols.filter fun t => t.name != s.name⟩

def ofList (ss : List Symbol) : Scope := ss.foldl insert ⟨[]⟩

def find? (scope : Scope) (name : String) : Option Symbol :=
  scope.symbols.find? fun s => s.name == name

def size (scope : Scope) : Nat := scope.symbols.length

def isEmpty (scope : Scope) : Bool := scope.symbols.isEmpty

theorem find?_insert (scope : Scope) (s : Symbol) (name : String) :
    (scope.insert s).find? name = if s.name = name then some s else scope.find? name := by
  by_cases h : s.name = name
  · simp [insert, find?, h]
  · simp only [insert, find?, List.find?_cons, List.find?_filter, h, beq_eq_false_iff_ne.2 h,
      if_false]
    congr 1
    funext t
    by_cases ht : t.name = name
    · simp [ht, Ne.symm h]
    · simp [ht]

end Scope

end Optima.Formula
