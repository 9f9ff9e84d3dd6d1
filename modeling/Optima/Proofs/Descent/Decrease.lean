import Mathlib.Tactic.Linarith
import Mathlib.Tactic.Positivity
import Optima.Proofs.Descent.Course
import Optima.Proofs.Lagrangian.Optimality

/-!
The search in a box never climbs, in exact arithmetic.

* `downhill_of_isCut`: a coordinate that steps against its entry of the gradient and is cut back
  does not move along that entry; `Downhill`: so it is for all coordinates.
* `Box.Proper`: the bounds are numbers or missing; `exists_cuts_project`: cutting back to them is
  monotone in each coordinate and changes nothing a second time.
* `exists_move`: a step from a settled point leads to a settled point, downhill.
* `Paced`: a step length is positive and at most the longest; `paced_firstStep`, `paced_nextStep`,
  `paced_halved`: all lengths that are tried are.
* `Visits.regular`: every iterate of the course has a settled point and a paced step.
* `never_climbs`: what that means for the trial steps, and for the values of consecutive iterates.
-/

namespace Optima

open Exact (finite)

variable {F : Type} [Field F] [LinearOrder F]

namespace Descent

/-! ## Coordinates -/

section

omit [Field F] in
/-- What cutting a coordinate back to its bounds is like. -/
structure IsCut (cut : F → F) : Prop where
  mono : Monotone cut
  idem : ∀ z, cut (cut z) = cut z

omit [Field F] in
theorem isCut_id : IsCut (id : F → F) := ⟨monotone_id, fun _ => rfl⟩

omit [Field F] [LinearOrder F] in
theorem mapIdx_id (zs : List F) : zs.mapIdx (fun _ => id) = zs :=
  List.ext_getElem (by simp) (by simp)

/-- No coordinate of the trial point lies along the gradient from the point, and one that does not
lie against it either has not moved. -/
inductive Downhill : (point gradient trial : List F) → Prop
  | noPoint (gs : List F) : Downhill [] gs []
  | noGradient (xs : List F) : Downhill xs [] []
  | cons {x g t : F} {xs gs ts : List F} (hle : g * (t - x) ≤ 0)
      (hstay : g * (t - x) = 0 → t = x) (h : Downhill xs gs ts) :
      Downhill (x :: xs) (g :: gs) (t :: ts)

/-- How far the way from the point to the trial point goes along the gradient. -/
def slope (xs gs ts : List F) : F := (List.zipWith (· * ·) gs (List.zipWith (· - ·) ts xs)).sum

omit [LinearOrder F] in
theorem slope_cons (x g t : F) (xs gs ts : List F) :
    slope (x :: xs) (g :: gs) (t :: ts) = g * (t - x) + slope xs gs ts := by
  rw [slope, List.zipWith_cons_cons, List.zipWith_cons_cons, List.sum_cons, slope]

variable [IsStrictOrderedRing F]

theorem downhill_of_isCut {cut : F → F} (hcut : IsCut cut) {x g s : F} (hx : cut x = x)
    (hs : 0 < s) :
    g * (cut (x - s * g) - x) ≤ 0 ∧ (g * (cut (x - s * g) - x) = 0 → cut (x - s * g) = x) := by
  refine ⟨?_, fun h => ?_⟩
  · rcases le_total 0 g with hg | hg
    · have hle : cut (x - s * g) ≤ cut x := hcut.mono (sub_le_self x (mul_nonneg hs.le hg))
      rw [hx] at hle
      exact mul_nonpos_of_nonneg_of_nonpos hg (sub_nonpos.2 hle)
    · have hle : cut x ≤ cut (x - s * g) :=
        hcut.mono ((le_sub_self_iff x).2 (mul_nonpos_of_nonneg_of_nonpos hs.le hg))
      rw [hx] at hle
      exact mul_nonpos_of_nonpos_of_nonneg hg (sub_nonneg.2 hle)
  · rcases mul_eq_zero.1 h with rfl | h
    · rw [mul_zero, sub_zero, hx]
    · exact sub_eq_zero.1 h

namespace Downhill

variable {xs gs ts : List F}

theorem slope_nonpos (h : Downhill xs gs ts) : slope xs gs ts ≤ 0 := by
  induction h with
  | noPoint gs => simp [slope]
  | noGradient xs => simp [slope]
  | cons hle _ _ ih =>
    rw [slope_cons]
    exact add_nonpos hle ih

/-- If nothing is gained, nothing has moved: a sum of terms none of which is positive is zero only
if all of them are. -/
theorem eq_of_slope_eq_zero (h : Downhill xs gs ts) (hlen : xs.length ≤ gs.length)
    (hzero : slope xs gs ts = 0) : ts = xs := by
  induction h with
  | noPoint gs => rfl
  | noGradient xs => exact (List.length_eq_zero_iff.1 (Nat.le_zero.1 hlen)).symm
  | cons hle hstay h ih =>
    rw [slope_cons] at hzero
    have hrest := h.slope_nonpos
    rw [hstay (by linarith), ih (Nat.le_of_succ_le_succ hlen) (by linarith)]

theorem of_isCut {cuts : ℕ → F → F} (hcuts : ∀ i, IsCut (cuts i)) (hx : xs.mapIdx cuts = xs) {s : F}
    (hs : 0 < s) (gs : List F) :
    Downhill xs gs ((List.zipWith (fun x g => x - s * g) xs gs).mapIdx cuts) := by
  induction xs generalizing gs cuts with
  | nil => exact .noPoint gs
  | cons x xs ih =>
    cases gs with
    | nil => exact .noGradient _
    | cons g gs =>
      rw [List.mapIdx_cons, List.cons.injEq] at hx
      obtain ⟨hle, hstay⟩ := downhill_of_isCut (g := g) (hcuts 0) hx.1 hs
      rw [List.zipWith_cons_cons, List.mapIdx_cons]
      exact .cons hle hstay (ih (fun i => hcuts (i + 1)) hx.2 gs)

end Downhill

end

end Descent

/-! ## Bounds -/

variable [Elementary F]

/-- The bounds are numbers; a lower one may be missing, which is minus infinity, and an upper one,
which is infinity. -/
structure Box.Proper (box : Box (Exact F)) : Prop where
  lower : ∀ l ∈ box.lower, l < Scalar.infinity
  upper : ∀ u ∈ box.upper, -Scalar.infinity < u

namespace Descent

theorem exists_cut {l u : Exact F} (hl : l < Scalar.infinity) (hu : -Scalar.infinity < u) :
    ∃ cut, IsCut cut ∧ ∀ z, Scalar.min (Scalar.max (finite z) l) u = finite (cut z) := by
  cases l with
  | undefined => exact absurd hl (Exact.not_undefined_lt _)
  | infinite n =>
    obtain rfl : n = true := hl.1
    cases u with
    | undefined => exact absurd hu (Exact.not_lt_undefined _)
    | infinite m =>
      obtain rfl : m = false := hu.2
      exact ⟨id, isCut_id, fun z => by rw [Exact.max_eq_finite rfl, Exact.min_eq_finite rfl, id]⟩
    | finite b =>
      refine ⟨(min · b), ⟨fun _ _ h => min_le_min_right b h, fun z => by simp⟩, fun z => ?_⟩
      rw [Exact.max_eq_finite rfl, Exact.min_finite]
  | finite a =>
    cases u with
    | undefined => exact absurd hu (Exact.not_lt_undefined _)
    | infinite m =>
      obtain rfl : m = false := hu.2
      refine ⟨(max · a), ⟨fun _ _ h => max_le_max_right a h, fun z => by simp⟩, fun z => ?_⟩
      rw [Exact.max_finite, Exact.min_eq_finite rfl]
    | finite b =>
      refine ⟨fun z => min (max z a) b,
        ⟨fun _ _ h => min_le_min_right b (max_le_max_right a h), fun z => ?_⟩, fun z => ?_⟩
      · have hout : min (max b a) b = b := min_eq_right (le_max_left b a)
        have hin : max (max z a) a = max z a := max_eq_left (le_max_right z a)
        rw [max_min_distrib_right, hin, min_assoc, hout]
      · rw [Exact.max_finite, Exact.min_finite]

/-- The induction is on both lists of bounds; where one of them ends, coordinates stay. -/
theorem exists_cuts {ls us : List (Exact F)} (hl : ∀ l ∈ ls, l < Scalar.infinity)
    (hu : ∀ u ∈ us, -Scalar.infinity < u) :
    ∃ cuts : ℕ → F → F, (∀ i, IsCut (cuts i)) ∧ ∀ zs : List F,
      Box.projectBetween ls us (zs.map finite) = (zs.mapIdx cuts).map finite := by
  induction ls generalizing us with
  | nil => exact ⟨fun _ => id, fun _ => isCut_id, fun zs => by simp [mapIdx_id, Box.projectBetween]⟩
  | cons l ls ih =>
    cases us with
    | nil =>
      exact ⟨fun _ => id, fun _ => isCut_id, fun zs => by simp [mapIdx_id, Box.projectBetween]⟩
    | cons u us =>
      obtain ⟨hl, hls⟩ := List.forall_mem_cons.1 hl
      obtain ⟨hu, hus⟩ := List.forall_mem_cons.1 hu
      obtain ⟨cut, hcut, heq⟩ := exists_cut hl hu
      obtain ⟨cuts, hcuts, heqs⟩ := ih hls hus
      refine ⟨fun i => i.casesOn cut cuts, fun i => by cases i <;> simp [hcut, hcuts], fun zs => ?_⟩
      cases zs with
      | nil => rfl
      | cons z zs =>
        rw [List.mapIdx_cons, List.map_cons, List.map_cons, Box.projectBetween, heq, heqs]
        rfl

theorem exists_cuts_project {box : Box (Exact F)} (hbox : box.Proper) :
    ∃ cuts : ℕ → F → F, (∀ i, IsCut (cuts i)) ∧ ∀ zs : List F,
      box.project (zs.map finite) = (zs.mapIdx cuts).map finite :=
  exists_cuts hbox.lower hbox.upper

/-! ## Steps -/

/-- The point is one of numbers, and the box leaves it where it is. -/
structure Settled (box : Box (Exact F)) (point : List (Exact F)) : Prop where
  numbers : ∃ xs : List F, point = xs.map finite
  stays : box.project point = point

theorem settled_project {box : Box (Exact F)} (hbox : box.Proper) (zs : List F) :
    Settled box (box.project (zs.map finite)) := by
  obtain ⟨cuts, hcuts, heq⟩ := exists_cuts_project hbox
  have hidem : (zs.mapIdx cuts).mapIdx cuts = zs.mapIdx cuts :=
    List.ext_getElem (by simp) fun i _ _ => by simp [(hcuts i).idem]
  exact ⟨⟨_, heq zs⟩, by rw [heq, heq, hidem]⟩

theorem displacement_map_finite (as bs : List F) :
    displacement (as.map finite) (bs.map finite) = (List.zipWith (· - ·) as bs).map finite := by
  rw [displacement, List.zipWith_map, List.map_zipWith]
  rfl

theorem dot_map_finite (as bs : List F) :
    dot (as.map finite) (bs.map finite) = finite (List.zipWith (· * ·) as bs).sum := by
  rw [← Exact.sum_map_finite, dot, List.zipWith_map, List.map_zipWith]
  rfl

theorem dot_displacement (xs gs ts : List F) :
    dot (gs.map finite) (displacement (ts.map finite) (xs.map finite)) =
      finite (slope xs gs ts) := by
  rw [displacement_map_finite, dot_map_finite, slope]

section

variable [IsStrictOrderedRing F]

theorem exists_move {box : Box (Exact F)} (hbox : box.Proper) {xs : List F}
    (hx : box.project (xs.map finite) = xs.map finite) (gs : List F) {s : F} (hs : 0 < s) :
    ∃ ts, box.move (xs.map finite) (gs.map finite) (finite s) = ts.map finite ∧
      Settled box (ts.map finite) ∧ Downhill xs gs ts := by
  obtain ⟨cuts, hcuts, heq⟩ := exists_cuts_project hbox
  have hstep : List.zipWith (fun x d => x - finite s * d) (xs.map finite) (gs.map finite) =
      (List.zipWith (fun x g => x - s * g) xs gs).map finite := by
    rw [List.zipWith_map, List.map_zipWith]
    rfl
  have hstays : xs.mapIdx cuts = xs :=
    List.map_injective_iff.2 (fun _ _ => Exact.finite.inj) ((heq xs).symm.trans hx)
  have hmove := heq (List.zipWith (fun x g => x - s * g) xs gs)
  refine ⟨_, by rw [Box.move, hstep, hmove], ?_, .of_isCut hcuts hstays hs gs⟩
  rw [← hmove]
  exact settled_project hbox _

end

/-! ## Step lengths -/

theorem shortestStep_def : (shortestStep : Exact F) = finite (10 ^ (-12 : ℤ)) := by
  change finite (((1 : ℕ) : F) * (10 : F) ^ (-12 : ℤ)) = _
  rw [Nat.cast_one, one_mul]

theorem longestStep_def : (longestStep : Exact F) = finite (10 ^ 12) := by
  change finite (((1 : ℕ) : F) * (10 : F) ^ ((12 : ℕ) : ℤ)) = _
  rw [Nat.cast_one, one_mul, zpow_natCast]

/-- The step length is positive and at most the longest. -/
def Paced (step : Exact F) : Prop := 0 < step ∧ step ≤ longestStep

theorem paced_finite {s : F} : Paced (finite s) ↔ 0 < s ∧ s ≤ 10 ^ 12 := by
  rw [Paced, longestStep_def]
  rfl

theorem Paced.exists_finite {step : Exact F} (h : Paced step) :
    ∃ s, step = finite s ∧ 0 < s ∧ s ≤ 10 ^ 12 := by
  rw [Paced, longestStep_def] at h
  cases step with
  | finite s => exact ⟨s, rfl, h⟩
  | infinite n => cases n <;> simp [Exact.zero_def] at h
  | undefined => simp at h

section

variable [IsStrictOrderedRing F]

theorem paced_halved {step : Exact F} (h : Paced step) (k : ℕ) : Paced (halved step k) := by
  induction k generalizing step with
  | zero => exact h
  | succ k ih =>
    obtain ⟨s, rfl, hpos, hle⟩ := h.exists_finite
    refine ih ?_
    rw [Exact.half_def, Exact.finite_mul]
    exact paced_finite.2 ⟨by positivity, by linarith⟩

omit [Field F] [Elementary F] [IsStrictOrderedRing F] in
theorem le_foldl_max (as : List F) (a : F) : a ≤ as.foldl max a := by
  induction as generalizing a with
  | nil => exact le_refl a
  | cons b as ih => exact (le_max_left a b).trans (ih (max a b))

theorem paced_firstStep (gs : List F) : Paced (firstStep (gs.map finite)) := by
  have habs : (gs.map finite).map Scalar.abs = (gs.map (|·|)).map finite := by
    rw [List.map_map, List.map_map]
    rfl
  have hone : 1 ≤ (gs.map (|·|)).foldl max 1 := le_foldl_max _ _
  have hpos : 0 < (gs.map (|·|)).foldl max 1 := one_pos.trans_le hone
  rw [firstStep, habs, Exact.one_def, Exact.foldl_max_map_finite, Exact.finite_div _ hpos.ne']
  refine paced_finite.2 ⟨one_div_pos.2 hpos, ?_⟩
  calc 1 / (gs.map (|·|)).foldl max 1 ≤ 1 := (div_le_one hpos).2 hone
    _ ≤ 10 ^ 12 := by norm_num

theorem paced_clamp (q : F) : Paced (Scalar.clamp shortestStep longestStep (finite q)) := by
  have hpos : (0 : F) < 10 ^ (-12 : ℤ) := by positivity
  have hle : (10 : F) ^ (-12 : ℤ) ≤ 10 ^ 12 := by norm_num
  rw [Scalar.clamp, shortestStep_def, longestStep_def]
  split_ifs with hshort hlong hlong
  · exact paced_finite.2 ⟨by positivity, le_refl _⟩
  · exact paced_finite.2 ⟨hpos, hle⟩
  · exact paced_finite.2 ⟨by positivity, le_refl _⟩
  · exact paced_finite.2 ⟨hpos.trans_le (not_lt.1 hshort), not_lt.1 hlong⟩

/-- Whatever the curvature, the next step is one, a quotient cut back to the range of steps, or
twice the last step and at most the longest. -/
theorem paced_nextStep (rule : StepRule) {it : Iterate (Exact F)} {xs gs : List F}
    (hpoint : it.point = xs.map finite) (hgradient : it.gradient = gs.map finite)
    {step : Exact F} (h : Paced step) (xs' gs' : List F) :
    Paced (nextStep rule it step (xs'.map finite) (gs'.map finite)) := by
  obtain ⟨s, rfl, hpos, -⟩ := h.exists_finite
  cases rule with
  | fixed => exact paced_finite.2 ⟨one_pos, by norm_num⟩
  | barzilaiBorwein =>
    simp only [nextStep, hpoint, hgradient, displacement_map_finite, dot_map_finite]
    split
    · next hcurvature =>
      rw [Exact.finite_div _ (ne_of_gt hcurvature)]
      exact paced_clamp _
    · rw [longestStep_def, Exact.two_def, Exact.finite_mul, Exact.min_finite]
      exact paced_finite.2 ⟨lt_min (by positivity) (by norm_num), min_le_right _ _⟩

/-! ## The course -/

variable {f : Smooth (Exact F)} {box : Box (Exact F)} {start : List F}
  {settings : Settings (Exact F)} {done : ℕ} {it : Iterate (Exact F)}

omit [IsStrictOrderedRing F] in
theorem exists_of_allFinite {value : Exact F} {gradient : List (Exact F)}
    (h : allFinite value gradient = true) :
    (∃ v, value = finite v) ∧ ∃ gs : List F, gradient = gs.map finite := by
  rw [allFinite, Bool.and_eq_true, List.all_eq_true] at h
  exact ⟨Exact.isFinite_iff.1 h.1, Exact.exists_map_finite h.2⟩

/-- The invariant of the course: the point is settled and the step is paced. -/
structure Iterate.Regular (box : Box (Exact F)) (it : Iterate (Exact F)) : Prop where
  settled : Settled box it.point
  paced : Paced it.step

/-- All trial steps from a regular iterate with a finite gradient lead downhill. -/
theorem Iterate.Regular.exists_trial (h : it.Regular box) (hbox : box.Proper) {xs gs : List F}
    (hx : it.point = xs.map finite) (hg : it.gradient = gs.map finite) (k : ℕ) :
    ∃ ts, box.move it.point it.gradient (halved it.step k) = ts.map finite ∧
      Settled box (ts.map finite) ∧ Downhill xs gs ts := by
  obtain ⟨s, hs, hpos, -⟩ := (paced_halved h.paced k).exists_finite
  rw [hs, hx, hg]
  exact exists_move hbox (hx ▸ h.settled.stays) gs hpos

theorem Visits.regular (hbox : box.Proper)
    (h : Visits f box (start.map Exact.finite) settings done it) : it.Regular box := by
  induction h with
  | first hv hfin =>
    obtain ⟨-, gs, rfl⟩ := exists_of_allFinite hfin
    exact ⟨settled_project hbox start, paced_firstStep gs⟩
  | next h _ _ ha ih =>
    obtain ⟨k, -, hpoint, -, -, hfin, hstep⟩ := advance_eq_next ha
    obtain ⟨xs, hx⟩ := ih.settled.numbers
    obtain ⟨-, gs, hg⟩ := exists_of_allFinite h.finite
    obtain ⟨-, gs', hg'⟩ := exists_of_allFinite hfin
    obtain ⟨ts, htrial, hsettled, -⟩ := ih.exists_trial hbox hx hg k
    rw [htrial] at hpoint
    refine ⟨hpoint ▸ hsettled, ?_⟩
    rw [hstep, hpoint, hg']
    exact paced_nextStep _ hx hg (paced_halved ih.paced k) ts gs'

/-- An accepted trial step that leads downhill does not raise the value by more than the allowance
for rounding. -/
theorem le_of_accepts {trial : List (Exact F)} {v d : F} (hv : it.value = finite v)
    (hd : dot it.gradient (displacement trial it.point) = finite d) (hle : d ≤ 0)
    (h : accepts f it trial = true) :
    f.value trial ≤ it.value + roundoff * Scalar.abs it.value := by
  rw [accepts, Bool.and_eq_true, decide_eq_true_eq] at h
  obtain ⟨hfin, h⟩ := h
  obtain ⟨w, hw⟩ := Exact.isFinite_iff.1 hfin
  obtain ⟨c, hc, hcpos⟩ : ∃ c : F, (armijo : Exact F) = finite c ∧ 0 ≤ c :=
    ⟨_, rfl, by positivity⟩
  obtain ⟨r, hr⟩ : ∃ r : F, (roundoff : Exact F) = finite r := ⟨_, rfl⟩
  have habs : Scalar.abs (finite v) = finite |v| := rfl
  rw [hd, hw, hv, habs, hc, hr] at h
  rw [hw, hv, habs, hr]
  have hle' : w ≤ v + c * d + r * |v| := h
  have hgain : c * d ≤ 0 := mul_nonpos_of_nonneg_of_nonpos hcpos hle
  exact show w ≤ v + r * |v| by linarith

/-- In exact arithmetic, with bounds that are numbers or missing, and a function whose value is the
one that it gives with the gradient, wherever the search is: the trial steps have a positive length,
at most the longest; none of them goes along the gradient, and one that goes neither along nor
against it does not move; and the next iterate has a value no higher than this one, but for the
allowance for rounding. -/
theorem never_climbs (hf : ∀ x, (f.valueAndGradient x).1 = f.value x) (hbox : box.Proper)
    (h : Visits f box (start.map finite) settings done it) :
    (∀ k, 0 < halved it.step k ∧ halved it.step k ≤ longestStep) ∧
      (∀ k trial, trial = box.move it.point it.gradient (halved it.step k) →
        dot it.gradient (displacement trial it.point) ≤ 0 ∧
          (it.gradient.length = it.point.length →
            dot it.gradient (displacement trial it.point) = 0 → trial = it.point)) ∧
      ∀ it', Visits f box (start.map finite) settings (done + 1) it' →
        f.value it'.point ≤ f.value it.point + roundoff * Scalar.abs (f.value it.point) := by
  have hregular := h.regular hbox
  obtain ⟨xs, hx⟩ := hregular.settled.numbers
  obtain ⟨⟨v, hv⟩, gs, hg⟩ := exists_of_allFinite h.finite
  refine ⟨paced_halved hregular.paced, fun k trial htrial => ?_, fun it' h' => ?_⟩
  · obtain ⟨ts, hts, -, hdown⟩ := hregular.exists_trial hbox hx hg k
    rw [htrial, hts, hx, hg, dot_displacement, List.length_map, List.length_map]
    refine ⟨hdown.slope_nonpos, fun hlen hzero => ?_⟩
    rw [hdown.eq_of_slope_eq_zero hlen.ge (Exact.finite.inj hzero)]
  · cases h' with
    | next h₀ _ _ ha =>
      cases h₀.unique h
      obtain ⟨k, -, hpoint, haccepts, -⟩ := advance_eq_next ha
      obtain ⟨ts, hts, -, hdown⟩ := hregular.exists_trial hbox hx hg k
      have hslope : dot it.gradient (displacement it'.point it.point) =
          finite (slope xs gs ts) := by
        rw [hpoint, hts, hx, hg, dot_displacement]
      have hvalue : f.value it.point = it.value := by rw [← hf, h.evaluated]
      rw [hvalue]
      exact le_of_accepts hv hslope hdown.slope_nonpos haccepts

end

/-- The sum of the squares of the coordinates. -/
def squares : Smooth (Exact ℚ) where
  value x := dot x x
  valueAndGradient x := (dot x x, x.map (Scalar.two * ·))

/-- The first trial step from two would reach one, and the bound cuts it back. -/
theorem never_climbs_squares :
    let box : Box (Exact ℚ) := ⟨[finite (3 / 2)], [.infinite false]⟩
    let it : Iterate (Exact ℚ) := ⟨[finite 2], finite 4, [finite 4], finite (1 / 4)⟩
    let point := [finite (3 / 2)]
    box.move it.point it.gradient it.step = point ∧
      dot it.gradient (displacement point it.point) ≤ 0 ∧
      squares.value point ≤
        squares.value it.point + roundoff * Scalar.abs (squares.value it.point) := by
  intro box it point
  let settings : Settings (Exact ℚ) := ⟨5, finite 0, .barzilaiBorwein⟩
  have hbox : box.Proper := ⟨by decide, by decide⟩
  have h : Visits squares box ([2].map finite) settings 0 it := by
    have hfirst : it = ⟨box.project ([2].map finite), finite 4, [finite 4],
        firstStep [finite 4]⟩ := by
      have hstep : firstStep [finite (4 : ℚ)] = finite (1 / 4) := by decide +kernel
      have hproject : box.project ([2].map finite) = [finite 2] := by decide +kernel
      rw [hstep, hproject]
    rw [hfirst]
    exact .first (by decide +kernel) (by decide +kernel)
  have hmove : box.move it.point it.gradient it.step = point := by decide +kernel
  have hb : backtrack squares box it maxTrials it.step = some (point, it.step) := by decide +kernel
  have hv : squares.valueAndGradient point = (finite (9 / 4), [finite 3]) := by decide +kernel
  have hfin : allFinite (finite (9 / 4 : ℚ)) [finite 3] = true := by decide +kernel
  have ha : advance squares box settings.rule it = .next
      ⟨point, finite (9 / 4), [finite 3], nextStep settings.rule it it.step point [finite 3]⟩ := by
    simp only [advance, hb, hv, hfin, if_true]
  obtain ⟨-, hdown, hvalue⟩ := never_climbs (fun _ => rfl) hbox h
  exact ⟨hmove, (hdown 0 point hmove.symm).1,
    hvalue _ (h.next (by decide +kernel) (by decide +kernel) ha)⟩

end Descent

end Optima
