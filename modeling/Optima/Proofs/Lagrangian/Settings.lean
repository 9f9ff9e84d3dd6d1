import Optima.Lagrangian.Settings
import Optima.Proofs.Except

/-!
What settings read from options satisfy.

* `Settings.Positive`: tolerances and penalties are positive, and the penalty grows.
* `positive_assign`: setting one option keeps that.
* `ofOptions_eq_ok`: settings that are read from options do not start the penalty above its cap.
* `positive_ofOptions`: they are positive if the defaults are.
-/

namespace Optima.Lagrangian

variable {α : Type} [Scalar α]

open Options (Value)

structure Settings.Positive (s : Settings α) : Prop where
  tolerance : 0 < s.tolerance
  violationTolerance : 0 < s.violationTolerance
  acceptableTolerance : 0 < s.acceptableTolerance
  acceptableViolationTolerance : 0 < s.acceptableViolationTolerance
  firstPenalty : 0 < s.firstPenalty
  maxPenalty : 0 < s.maxPenalty
  penaltyGrowth : 1 < s.penaltyGrowth

theorem positive_eq_ok {value : Value α} {v : α} (h : positive value = .ok v) : 0 < v := by
  obtain ⟨w, -, hw⟩ := bind_eq_ok.1 h
  split at hw
  · next hpos =>
    cases hw
    exact hpos
  · cases hw

theorem aboveOne_eq_ok {value : Value α} {v : α} (h : aboveOne value = .ok v) : 1 < v := by
  obtain ⟨w, -, hw⟩ := bind_eq_ok.1 h
  split at hw
  · next hone =>
    cases hw
    exact hone
  · cases hw

theorem positive_assign {setting : Setting} {value : Value α} {s s' : Settings α}
    (hs : s.Positive) (h : assign setting value s = .ok s') : s'.Positive := by
  cases setting <;> obtain ⟨b, hb, ⟨⟩⟩ := bind_eq_ok.1 h
  case tolerance => exact { hs with tolerance := positive_eq_ok hb }
  case violationTolerance => exact { hs with violationTolerance := positive_eq_ok hb }
  case acceptableTolerance => exact { hs with acceptableTolerance := positive_eq_ok hb }
  case acceptableViolationTolerance =>
    exact { hs with acceptableViolationTolerance := positive_eq_ok hb }
  case firstPenalty => exact { hs with firstPenalty := positive_eq_ok hb }
  case maxPenalty => exact { hs with maxPenalty := positive_eq_ok hb }
  case penaltyGrowth => exact { hs with penaltyGrowth := aboveOne_eq_ok hb }
  all_goals exact { hs with }

theorem positive_foldlM {entries : List (Options.Key × Value α)} {s s' : Settings α}
    (hs : s.Positive) (h : entries.foldlM assignOption s = .ok s') : s'.Positive := by
  induction entries generalizing s with
  | nil =>
    cases h
    exact hs
  | cons entry entries ih =>
    rw [List.foldlM_cons] at h
    obtain ⟨t, ha, h₁⟩ := bind_eq_ok.1 h
    refine ih ?_ h₁
    unfold assignOption at ha
    split at ha
    · cases ha
    · split at ha
      · next hset =>
        cases ha
        exact positive_assign hs hset
      · cases ha

theorem ofOptions_eq_ok {opts : Options α} {s : Settings α} (h : Settings.ofOptions opts = .ok s) :
    opts.entries.foldlM assignOption Settings.default = .ok s ∧ ¬ s.maxPenalty < s.firstPenalty := by
  obtain ⟨t, hf, ht⟩ := bind_eq_ok.1 h
  unfold checkPenalties at ht
  split at ht
  · cases ht
  · next hcap =>
    cases ht
    exact ⟨hf, hcap⟩

/-- The settings that options stand for are positive if the defaults are. -/
theorem positive_ofOptions {opts : Options α} {s : Settings α}
    (hd : (Settings.default : Settings α).Positive) (h : Settings.ofOptions opts = .ok s) :
    s.Positive :=
  positive_foldlM hd (ofOptions_eq_ok h).1

end Optima.Lagrangian
