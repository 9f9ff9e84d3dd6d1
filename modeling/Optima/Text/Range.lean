/-!
Sets of code points, given as ascending ranges.

* `inRanges`: membership; the search ends at the first range above the code point.
* `exists_of_inRanges`: what is found lies in one of the ranges.
-/

namespace Optima.Text

/-- `n` lies in one of the ranges, both ends included. -/
def inRanges : List (Nat × Nat) → Nat → Bool
  | [], _ => false
  | (lo, hi) :: rest, n => if n < lo then false else decide (n ≤ hi) || inRanges rest n

theorem exists_of_inRanges {ranges : List (Nat × Nat)} {n : Nat} (h : inRanges ranges n = true) :
    ∃ r ∈ ranges, r.1 ≤ n ∧ n ≤ r.2 := by
  induction ranges with
  | nil => simp [inRanges] at h
  | cons r rest ih =>
    obtain ⟨lo, hi⟩ := r
    simp only [inRanges] at h
    split at h
    · simp at h
    · next hlo =>
      rw [Bool.or_eq_true, decide_eq_true_eq] at h
      rcases h with h | h
      · exact ⟨(lo, hi), by simp, by omega, h⟩
      · obtain ⟨r, hr, hb⟩ := ih h
        exact ⟨r, by simp [hr], hb⟩

end Optima.Text
