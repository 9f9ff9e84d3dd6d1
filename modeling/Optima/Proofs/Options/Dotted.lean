import Mathlib.Data.List.TakeWhile
import Optima.Options.Key

/-!
Keys and their dotted texts: which key a text is read as, and which keys are written alike.

* `Key.Pointed`: a point stands in front of where the name begins, other than the one that ends the
  space.
* `Key.ofDotted_eq_iff`: of the keys that are written as a text, it is read as the one that is not
  pointed.
* `Key.dotted_reads_back`: so what is read is written back unchanged, what is written is read back
  unless it is pointed, and only with a pointed key can two keys be written alike.
-/

namespace Optima.Options.Key

/-! ## Texts -/

theorem toList_dotted_space (space name : String) :
    (dotted ⟨some space, name⟩).toList = space.toList ++ '.' :: name.toList := by
  have hpoint : ".".toList = ['.'] := by decide
  rw [dotted, String.toList_append, String.toList_append, hpoint, List.append_assoc,
    List.singleton_append]

/-- The space ends at the first point. -/
theorem ofDotted_of_split {text : String} {before after : List Char}
    (h : text.toList = before ++ '.' :: after) (hbefore : '.' ∉ before) :
    ofDotted text = ⟨some (String.ofList before), String.ofList after⟩ := by
  have hpass : ∀ c ∈ before, (c != '.') = true := by
    intro c hc
    exact bne_iff_ne.2 (ne_of_mem_of_not_mem hc hbefore)
  have hstop : ¬ ('.' != '.') = true := by decide
  rw [ofDotted, h, List.dropWhile_append_of_pos hpass, List.takeWhile_append_of_pos hpass,
    List.dropWhile_cons, if_neg hstop, List.takeWhile_cons, if_neg hstop, List.append_nil]

theorem ofDotted_of_not_mem {text : String} (h : '.' ∉ text.toList) :
    ofDotted text = ⟨none, text⟩ := by
  have hpass : ∀ c ∈ text.toList, (c != '.') = true := by
    intro c hc
    exact bne_iff_ne.2 (ne_of_mem_of_not_mem hc h)
  rw [ofDotted, List.dropWhile_eq_nil_iff.2 hpass]

/-! ## Pointed keys -/

/-- The space of the key has a point in it; without a space, its name has. -/
def Pointed (key : Key) : Prop :=
  match key.space with
  | some space => '.' ∈ space.toList
  | none => '.' ∈ key.name.toList

instance : (key : Key) → Decidable key.Pointed
  | ⟨some space, _⟩ => inferInstanceAs (Decidable ('.' ∈ space.toList))
  | ⟨none, name⟩ => inferInstanceAs (Decidable ('.' ∈ name.toList))

theorem not_pointed_ofDotted (text : String) : ¬ (ofDotted text).Pointed := by
  by_cases h : '.' ∈ text.toList
  · obtain ⟨before, after, hsplit, hbefore⟩ := List.eq_append_cons_of_mem h
    rw [ofDotted_of_split hsplit hbefore]
    change '.' ∉ (String.ofList before).toList
    rwa [String.toList_ofList]
  · rwa [ofDotted_of_not_mem h]

theorem ofDotted_dotted {key : Key} (h : ¬ key.Pointed) : ofDotted key.dotted = key := by
  obtain ⟨space, name⟩ := key
  cases space with
  | none => exact ofDotted_of_not_mem h
  | some space =>
    rw [ofDotted_of_split (toList_dotted_space space name) h, String.ofList_toList,
      String.ofList_toList]

theorem ofDotted_eq_iff {text : String} {key : Key} :
    ofDotted text = key ↔ key.dotted = text ∧ ¬ key.Pointed := by
  constructor
  · rintro rfl
    exact ⟨dotted_ofDotted text, not_pointed_ofDotted text⟩
  · rintro ⟨rfl, h⟩
    exact ofDotted_dotted h

/-! ## Reading and writing -/

/-- Reading a text and writing what was read changes nothing. Writing a key and reading what was
written changes nothing exactly if no point stands in its space, or in its name if it has no space.
So of two different keys that are written alike one has such a point; and each text is read as the
one key without it that is written as the text. -/
theorem dotted_reads_back :
    (∀ text, (ofDotted text).dotted = text) ∧
    (∀ key : Key, ofDotted key.dotted = key ↔
      (∃ space, key.space = some space ∧ '.' ∉ space.toList) ∨
        key.space = none ∧ '.' ∉ key.name.toList) ∧
    (∀ a b : Key, a ≠ b → a.dotted = b.dotted → a.Pointed ∨ b.Pointed) ∧
    ∀ text key, ofDotted text = key ↔ key.dotted = text ∧ ¬ key.Pointed := by
  refine ⟨dotted_ofDotted, ?_, ?_, fun _ _ => ofDotted_eq_iff⟩
  · intro key
    rw [ofDotted_eq_iff, and_iff_right rfl]
    obtain ⟨space, name⟩ := key
    cases space <;> simp [Pointed]
  · intro a b hne halike
    by_contra hplain
    obtain ⟨ha, hb⟩ := not_or.1 hplain
    have hsame : a = b := by
      rw [← ofDotted_dotted ha, halike, ofDotted_dotted hb]
    exact hne hsame

/-- The same text for a space with a point and for a name with one: it is read as the latter. -/
theorem dotted_reads_back_twice :
    let a : Key := ⟨some "auglag.inner", "tol"⟩
    let b : Key := ⟨some "auglag", "inner.tol"⟩
    a ≠ b ∧ a.dotted = b.dotted ∧ (a.Pointed ∨ b.Pointed) ∧ ofDotted "auglag.inner.tol" = b := by
  intro a b
  obtain ⟨-, -, halike, hread⟩ := dotted_reads_back
  have hne : a ≠ b := by decide
  have hsame : a.dotted = b.dotted := by decide
  exact ⟨hne, hsame, halike a b hne hsame, (hread _ b).2 ⟨by decide, by decide⟩⟩

end Optima.Options.Key
