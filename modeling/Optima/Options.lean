import Optima.Options.Key
import Optima.Options.Value

/-!
Stores of options: each key has at most one value, and entries are kept in the order of their keys.

* `find?_insert`: the last value written to a key is the one that is found; other keys keep theirs.
* `find?_erase`: an erased key has no value; other keys keep theirs.
* `describe`: the text of a store, which follows the order of the keys and not of the writes.
-/

namespace Optima

/-- Keys with their values, ascending. -/
structure Options (α : Type) where
  entries : List (Options.Key × Options.Value α) := []
  deriving Repr

namespace Options

variable {α : Type}

def empty : Options α := ⟨[]⟩

/-- Writes one entry, replacing that of the same key. -/
def insertEntry (key : Key) (value : Value α) :
    List (Key × Value α) → List (Key × Value α)
  | [] => [(key, value)]
  | (k, v) :: rest =>
    if key.before k then (key, value) :: (k, v) :: rest
    else if key = k then (key, value) :: rest
    else (k, v) :: insertEntry key value rest

def insert (opts : Options α) (key : Key) (value : Value α) : Options α :=
  ⟨insertEntry key value opts.entries⟩

def find? (opts : Options α) (key : Key) : Option (Value α) := opts.entries.lookup key

def erase (opts : Options α) (key : Key) : Options α :=
  ⟨opts.entries.filter fun entry => entry.1 != key⟩

/-- Writes an entry and hands back the value that it replaces. -/
def replace (opts : Options α) (key : Key) (value : Value α) : Option (Value α) × Options α :=
  (opts.find? key, opts.insert key value)

/-- Erases a key and hands back its value. -/
def remove (opts : Options α) (key : Key) : Option (Value α) × Options α :=
  (opts.find? key, opts.erase key)

/-- Writes entries one after the other. -/
def insertMany (opts : Options α) (entries : List (Key × Value α)) : Options α :=
  entries.foldl (fun opts entry => opts.insert entry.1 entry.2) opts

/-- Writes named values into one space. -/
def merge (opts : Options α) (space : Option String) (values : List (String × Value α)) :
    Options α :=
  opts.insertMany (values.map fun (name, value) => (⟨space, name⟩, value))

def ofList (entries : List (Key × Value α)) : Options α := empty.insertMany entries

def size (opts : Options α) : Nat := opts.entries.length

def isEmpty (opts : Options α) : Bool := opts.entries.isEmpty

def describe [Printable α] (opts : Options α) : String :=
  "\x7b" ++
    ", ".intercalate (opts.entries.map fun (key, value) => key.dotted ++ ": " ++ value.describe) ++
  "\x7d"

theorem lookup_insertEntry (key other : Key) (value : Value α) (entries : List (Key × Value α)) :
    (insertEntry key value entries).lookup other =
      if other = key then some value else entries.lookup other := by
  induction entries with
  | nil =>
    by_cases h : other = key
    · simp [insertEntry, h]
    · simp [insertEntry, List.lookup_cons, beq_eq_false_iff_ne.2 h, h]
  | cons entry rest ih =>
    obtain ⟨k, v⟩ := entry
    simp only [insertEntry]
    split
    · by_cases h : other = key
      · simp [h]
      · simp [List.lookup_cons, beq_eq_false_iff_ne.2 h, h]
    · split
      · next hk =>
        subst hk
        by_cases h : other = key
        · simp [h]
        · simp [List.lookup_cons, beq_eq_false_iff_ne.2 h, h]
      · next hk =>
        by_cases hok : other = k
        · subst hok
          simp [Ne.symm hk]
        · simp [List.lookup_cons, beq_eq_false_iff_ne.2 hok, ih]

theorem find?_insert (opts : Options α) (key other : Key) (value : Value α) :
    (opts.insert key value).find? other = if other = key then some value else opts.find? other :=
  lookup_insertEntry key other value opts.entries

theorem find?_erase (opts : Options α) (key other : Key) :
    (opts.erase key).find? other = if other = key then none else opts.find? other := by
  simp only [erase, find?]
  induction opts.entries with
  | nil => simp
  | cons entry rest ih =>
    obtain ⟨k, v⟩ := entry
    by_cases hk : k = key
    · subst hk
      by_cases ho : other = k
      · simpa [ho] using ih
      · simpa [ho, List.lookup_cons, beq_eq_false_iff_ne.2 ho] using ih
    · by_cases ho : other = k
      · subst ho
        simp [hk]
      · simp [hk, List.lookup_cons, beq_eq_false_iff_ne.2 ho, ih]

end Options

end Optima
