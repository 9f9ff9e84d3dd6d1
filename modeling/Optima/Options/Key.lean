/-!
Keys of options: a name, possibly within a space of names.

* `Key.ofDotted`: the text before the first point is the space.
* `Key.dotted_ofDotted`: reading a dotted key and writing it again changes nothing.
* `Key.before_irrefl`: no key comes before itself.
-/

namespace Optima.Options

structure Key where
  space : Option String
  name : String
  deriving DecidableEq, Repr

namespace Key

/-- Splits a dotted text at its first point. -/
def ofDotted (text : String) : Key :=
  match text.toList.dropWhile (· != '.') with
  | [] => ⟨none, text⟩
  | _ :: name => ⟨some (String.ofList (text.toList.takeWhile (· != '.'))), String.ofList name⟩

def dotted (key : Key) : String :=
  match key.space with
  | some space => space ++ "." ++ key.name
  | none => key.name

/-- Keys without a space come first; then the space decides and then the name, by code point. -/
def before (a b : Key) : Bool :=
  match a.space, b.space with
  | none, none => a.name < b.name
  | none, some _ => true
  | some _, none => false
  | some s, some t => s < t || (s == t && a.name < b.name)

theorem before_irrefl (a : Key) : a.before a = false := by
  have h (s : String) : decide (s < s) = false := decide_eq_false (String.lt_irrefl s)
  cases ha : a.space <;> simp only [before, ha, h, Bool.and_false, Bool.or_false]

theorem dotted_ofDotted (text : String) : (ofDotted text).dotted = text := by
  have happend := List.takeWhile_append_dropWhile (p := (· != '.')) (l := text.toList)
  unfold ofDotted
  cases h : text.toList.dropWhile (· != '.') with
  | nil => rfl
  | cons c name =>
    have hc : c = '.' := by
      have := List.head?_dropWhile_not (· != '.') text.toList
      rw [h] at this
      simpa using this
    rw [h, hc] at happend
    apply String.toList_injective
    simp only [dotted, String.toList_append, String.toList_ofList]
    rw [List.append_assoc]
    exact happend

end Key

end Optima.Options
