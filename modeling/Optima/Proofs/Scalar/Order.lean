import Optima.Scalar

/-!
What the comparison of scalars is assumed to be: a total preorder on everything but the undefined
values, which compare with nothing.

* `Ordered`: the laws.
* `left_le_max`, `max_le`, …, `le_min`: the larger and the smaller of two scalars.
* `le_of_foldl_max_le`: a bound on the largest of several scalars bounds each of them.
* `exists_lt_of_lt_foldl_max`: what is below the largest of several scalars is below one of them.
-/

namespace Optima

/-- Comparison is a total preorder on the scalars that are equal to themselves. -/
class Ordered (α : Type) [Scalar α] : Prop where
  le_trans {a b c : α} : a ≤ b → b ≤ c → a ≤ c
  le_total {a b : α} : Scalar.isNaN a = false → Scalar.isNaN b = false → a ≤ b ∨ b ≤ a
  defined_of_le {a b : α} : a ≤ b → Scalar.isNaN a = false ∧ Scalar.isNaN b = false
  lt_iff {a b : α} : a < b ↔ a ≤ b ∧ ¬ b ≤ a
  beq_iff {a b : α} : (a == b) = true ↔ a ≤ b ∧ b ≤ a

namespace Ordered

variable {α : Type} [Scalar α] [Ordered α] {a b c t : α}

theorem le_refl (h : Scalar.isNaN a = false) : a ≤ a := (le_total h h).elim id id

theorem le_of_lt (h : a < b) : a ≤ b := (lt_iff.1 h).1

theorem defined_of_lt (h : a < b) : Scalar.isNaN a = false ∧ Scalar.isNaN b = false :=
  defined_of_le (le_of_lt h)

theorem not_lt (ha : Scalar.isNaN a = false) (hb : Scalar.isNaN b = false) :
    ¬ a < b ↔ b ≤ a := by
  rw [lt_iff]
  constructor
  · intro h
    rcases le_total ha hb with hab | hba
    · exact Classical.not_not.1 fun hba => h ⟨hab, hba⟩
    · exact hba
  · exact fun hba h => h.2 hba

theorem lt_of_lt_of_le (h : a < b) (h' : b ≤ c) : a < c :=
  lt_iff.2 ⟨le_trans (le_of_lt h) h', fun hca => (lt_iff.1 h).2 (le_trans h' hca)⟩

theorem lt_of_le_of_lt (h : a ≤ b) (h' : b < c) : a < c :=
  lt_iff.2 ⟨le_trans h (le_of_lt h'), fun hca => (lt_iff.1 h').2 (le_trans hca h)⟩

theorem lt_irrefl (a : α) : ¬ a < a := fun h => (lt_iff.1 h).2 (le_of_lt h)

theorem isFinite_infinity : Scalar.isFinite (Scalar.infinity : α) = false := by
  simp [Scalar.isFinite, lt_irrefl]

theorem isFinite_neg_infinity : Scalar.isFinite (-Scalar.infinity : α) = false := by
  simp [Scalar.isFinite, lt_irrefl]

/-! ## The larger and the smaller of two -/

theorem isNaN_max (h : Scalar.isNaN a = false ∨ Scalar.isNaN b = false) :
    Scalar.isNaN (Scalar.max a b) = false := by
  unfold Scalar.max
  split
  · next hab =>
    rcases hab with hab | hb
    · exact (defined_of_lt hab).2
    · exact h.resolve_right (by rw [hb]; nofun)
  · next hab => exact Bool.eq_false_iff.2 fun hb => hab (.inr hb)

theorem left_le_max (h : Scalar.isNaN a = false) : a ≤ Scalar.max a b := by
  unfold Scalar.max
  split
  · exact le_refl h
  · next hab =>
    have hb : Scalar.isNaN b = false := Bool.eq_false_iff.2 fun hb => hab (.inr hb)
    exact (not_lt hb h).1 fun hba => hab (.inl hba)

theorem right_le_max (h : Scalar.isNaN b = false) : b ≤ Scalar.max a b := by
  unfold Scalar.max
  split
  · next hab => exact le_of_lt (hab.resolve_right (by rw [h]; nofun))
  · exact le_refl h

omit [Ordered α] in
theorem max_le (ha : a ≤ t) (hb : b ≤ t) : Scalar.max a b ≤ t := by
  unfold Scalar.max
  split
  · exact ha
  · exact hb

theorem min_le_left (h : Scalar.isNaN a = false) : Scalar.min a b ≤ a := by
  unfold Scalar.min
  split
  · exact le_refl h
  · next hab =>
    have hb : Scalar.isNaN b = false := Bool.eq_false_iff.2 fun hb => hab (.inr hb)
    exact (not_lt h hb).1 fun hlt => hab (.inl hlt)

theorem min_le_right (h : Scalar.isNaN b = false) : Scalar.min a b ≤ b := by
  unfold Scalar.min
  split
  · next hab => exact le_of_lt (hab.resolve_right (by rw [h]; nofun))
  · exact le_refl h

theorem min_eq_right (h : b ≤ a) : Scalar.min a b = b := by
  refine if_neg ?_
  rintro (hlt | hb)
  · exact (lt_iff.1 hlt).2 h
  · rw [(defined_of_le h).1] at hb
    cases hb

omit [Ordered α] in
theorem le_min (ha : t ≤ a) (hb : t ≤ b) : t ≤ Scalar.min a b := by
  unfold Scalar.min
  split
  · exact ha
  · exact hb

omit [Ordered α] in
theorem lt_min (ha : t < a) (hb : t < b) : t < Scalar.min a b := by
  unfold Scalar.min
  split
  · exact ha
  · exact hb

omit [Ordered α] in
theorem max_lt (ha : a < t) (hb : b < t) : Scalar.max a b < t := by
  unfold Scalar.max
  split
  · exact ha
  · exact hb

/-- Where the smaller of two is at most `t` but the first is not, the second is. -/
theorem right_le_of_min_le (h : Scalar.min a b ≤ t) (ha : t < a) (hb : Scalar.isNaN b = false) :
    b ≤ t := by
  have ht : Scalar.isNaN t = false := (defined_of_le h).2
  rw [← not_lt ht hb]
  intro hlt
  exact (lt_iff.1 (lt_min ha hlt)).2 h

/-! ## The largest of several -/

theorem le_of_foldl_max_le {xs : List α} {acc : α} (hacc : Scalar.isNaN acc = false)
    (h : xs.foldl Scalar.max acc ≤ t) :
    acc ≤ t ∧ ∀ x ∈ xs, Scalar.isNaN x = false → x ≤ t := by
  induction xs generalizing acc with
  | nil => exact ⟨h, nofun⟩
  | cons x xs ih =>
    obtain ⟨hmax, hall⟩ := ih (isNaN_max (.inl hacc)) h
    refine ⟨le_trans (left_le_max hacc) hmax, fun y hy hd => ?_⟩
    rcases List.mem_cons.1 hy with rfl | hy
    · exact le_trans (right_le_max hd) hmax
    · exact hall y hy hd

omit [Ordered α] in
theorem exists_lt_of_lt_foldl_max {xs : List α} {acc : α} (h : t < xs.foldl Scalar.max acc) :
    t < acc ∨ ∃ x ∈ xs, t < x := by
  induction xs generalizing acc with
  | nil => exact .inl h
  | cons x xs ih =>
    rcases ih h with hmax | ⟨y, hy, hlt⟩
    · rcases Scalar.max_eq_or acc x with hm | hm <;> rw [hm] at hmax
      · exact .inl hmax
      · exact .inr ⟨x, List.mem_cons_self, hmax⟩
    · exact .inr ⟨y, List.mem_cons_of_mem x hy, hlt⟩

end Ordered

end Optima
