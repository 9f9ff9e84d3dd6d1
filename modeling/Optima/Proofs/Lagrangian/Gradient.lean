import Mathlib.Analysis.Calculus.Deriv.Mul
import Mathlib.Analysis.Calculus.Deriv.Slope
import Optima.Lagrangian.Subproblem
import Optima.Proofs.Expr.Gradient
import Optima.Proofs.Lagrangian.Compilation
import Optima.Proofs.Lagrangian.Forces
import Optima.Proofs.Lagrangian.Multipliers

/-!
The gradient that a subproblem gives is the gradient of its value, over the reals.

* `pointOf`: a point of the space as the arguments of compiled functions; `valueAt_of_compile`:
  their values are those of the expressions there.
* `hasDerivAt_square_max`: the square of a positive part has a derivative everywhere, also where the
  part begins; `exists_shift`: so has that of a shifted violation.
* `Term.exists_real`: the term of a constraint is a function with a derivative, its weight.
* `addEntry_pointOf`: what a constraint adds to an entry is its weight times its derivative;
  `exists_hasGradient_terms`: so the terms add their gradients.
* `hasGradientAt_subproblem`: the value and the gradient of a subproblem.
-/

open Filter Topology

namespace Optima.Lagrangian

open Exact (finite)

variable {decisions : List Symbol}

/-! ## Points -/

/-- The coordinates of the point in the order of the variables. -/
noncomputable def pointOf (x : Points decisions) : List (Exact ℝ) := List.ofFn fun i => finite (x i)

theorem length_pointOf (x : Points decisions) : (pointOf x).length = decisions.length :=
  List.length_ofFn

theorem getElem?_pointOf (x : Points decisions) (i : Fin decisions.length) :
    (pointOf x)[(i : ℕ)]? = some (finite (x i)) := by
  rw [pointOf, List.getElem?_ofFn, dif_pos i.isLt]

theorem eq_pointOf {values : List (Exact ℝ)} {x : Points decisions}
    (hlength : values.length = decisions.length)
    (h : ∀ i : Fin decisions.length, values[(i : ℕ)]? = some (finite (x i))) :
    values = pointOf x := by
  refine List.ext_getElem? fun i => ?_
  by_cases hi : i < decisions.length
  · exact (h ⟨i, hi⟩).trans (getElem?_pointOf x ⟨i, hi⟩).symm
  · rw [List.getElem?_eq_none (by omega), List.getElem?_eq_none (by rw [length_pointOf]; omega)]

theorem assignment_pointOf (hd : decisions.Nodup) (x : Points decisions) {s : Symbol}
    (hs : s ∈ decisions) : assignment decisions (pointOf x) s = finite (environment x s) := by
  obtain ⟨i, hi, rfl⟩ := List.mem_iff_getElem.1 hs
  rw [assignment_at hd (List.getElem?_eq_getElem hi) (getElem?_pointOf x ⟨i, hi⟩)]
  exact congrArg finite (environment_getElem hd x ⟨i, hi⟩).symm

theorem valueAt_of_compile (hd : decisions.Nodup) {e : Expr (Exact ℝ)} {f : Function (Exact ℝ)}
    (hf : Function.compile decisions e = .ok f) (x : Points decisions) :
    valueAt f (pointOf x) = e.valueAt (environment x) := by
  rw [valueAt, call_of_compile hf (length_pointOf x)]
  have hmentions : e.occurrences ⊆ decisions := exists_compile_iff.1 ⟨f, hf⟩
  exact Expr.eval_congr fun s hs => assignment_pointOf hd x (hmentions hs)

/-! ## The term of a constraint -/

theorem mul_max_zero (u : ℝ) : max u 0 * max u 0 = u * max u 0 := by
  rcases le_total u 0 with h | h
  · rw [max_eq_right h, mul_zero, mul_zero]
  · rw [max_eq_left h]

/-- The square of the positive part. Where the part begins, the difference quotient of the square is
the part itself. -/
theorem hasDerivAt_square_max (t : ℝ) :
    HasDerivAt (fun u : ℝ => max u 0 * max u 0) (2 * max t 0) t := by
  rcases lt_trichotomy t 0 with h | rfl | h
  · rw [max_eq_right h.le, mul_zero]
    refine (hasDerivAt_const t (0 : ℝ)).congr_of_eventuallyEq ?_
    filter_upwards [eventually_lt_nhds h] with u hu
    rw [max_eq_right hu.le, mul_zero]
  · have hslope : Tendsto (fun u : ℝ => max u 0) (𝓝[≠] 0) (𝓝 (2 * max 0 0)) := by
      have hcont : Continuous fun u : ℝ => max u 0 := continuous_id.max continuous_const
      rw [max_self, mul_zero]
      exact (hcont.tendsto' 0 0 (max_self 0)).mono_left nhdsWithin_le_nhds
    rw [hasDerivAt_iff_tendsto_slope_zero]
    refine hslope.congr' ?_
    filter_upwards [self_mem_nhdsWithin] with u hu
    have hne : u ≠ 0 := hu
    rw [zero_add, max_self, mul_zero, sub_zero, mul_max_zero, smul_eq_mul,
      inv_mul_cancel_left₀ hne]
  · rw [max_eq_left h.le, two_mul]
    have hsquare : HasDerivAt (fun u : ℝ => u * u) (t + t) t := by
      simpa using (hasDerivAt_id' t).fun_mul (hasDerivAt_id' t)
    refine hsquare.congr_of_eventuallyEq ?_
    filter_upwards [eventually_gt_nhds h] with u hu
    rw [max_eq_left hu.le]

/-- The shifted violation of a side that may be infinite. Where the side is finite, the violation
changes with the constraint at the rate `r`. -/
theorem exists_shift {bound : Exact ℝ} {violation : ℝ → Exact ℝ} {rho r : ℝ} (hrho : rho ≠ 0)
    (mu : ℝ)
    (hviolation : ∀ b, bound = finite b →
      ∃ v : ℝ → ℝ, (∀ c, violation c = finite (v c)) ∧ ∀ c, HasDerivAt v r c) :
    ∃ shift : ℝ → ℝ,
      (∀ c, (if Scalar.isFinite bound then
          Scalar.max (violation c + finite mu / finite rho) 0 else 0) = finite (shift c)) ∧
        ∀ c, HasDerivAt (fun c => shift c * shift c) (2 * shift c * r) c := by
  split
  · next hfin =>
    obtain ⟨b, hb⟩ := Exact.isFinite_iff.1 hfin
    obtain ⟨v, hv, hderiv⟩ := hviolation b hb
    refine ⟨fun c => max (v c + mu / rho) 0, fun c => ?_, fun c => ?_⟩
    · rw [hv, Exact.finite_div mu hrho, Exact.finite_add, Exact.zero_def, Exact.max_finite]
    · exact (hasDerivAt_square_max (v c + mu / rho)).comp c ((hderiv c).add_const (mu / rho))
  · exact ⟨fun _ => 0, fun _ => rfl, fun c => by simpa using hasDerivAt_const c (0 : ℝ)⟩

namespace Term

variable {term : Term (Exact ℝ)} {rho : ℝ}

theorem exists_upperShift (hrho : rho ≠ 0) {mu : ℝ} (hmu : term.multiplier.upper = finite mu) :
    ∃ shift : ℝ → ℝ, (∀ c, term.upperShift (finite rho) (finite c) = finite (shift c)) ∧
      ∀ c, HasDerivAt (fun c => shift c * shift c) (2 * shift c * 1) c := by
  unfold upperShift
  rw [hmu]
  refine exists_shift hrho mu fun u hu => ⟨fun c => c - u, fun c => ?_, fun c => ?_⟩
  · rw [hu, Exact.finite_sub]
  · exact (hasDerivAt_id c).sub_const u

theorem exists_lowerShift (hrho : rho ≠ 0) {mu : ℝ} (hmu : term.multiplier.lower = finite mu) :
    ∃ shift : ℝ → ℝ, (∀ c, term.lowerShift (finite rho) (finite c) = finite (shift c)) ∧
      ∀ c, HasDerivAt (fun c => shift c * shift c) (2 * shift c * -1) c := by
  unfold lowerShift
  rw [hmu]
  refine exists_shift hrho mu fun l hl => ⟨fun c => l - c, fun c => ?_, fun c => ?_⟩
  · rw [hl, Exact.finite_sub]
  · exact (hasDerivAt_id c).const_sub l

/-- On numbers, the term of a constraint is a function with a derivative, and that is its weight. -/
theorem exists_real (hrho : rho ≠ 0) (hmu : term.multiplier.Admissible term.bounds) :
    ∃ value weight : ℝ → ℝ, (∀ c, term.value (finite rho) (finite c) = finite (value c)) ∧
      (∀ c, term.weight (finite rho) (finite c) = finite (weight c)) ∧
      ∀ c, HasDerivAt value (weight c) c := by
  obtain ⟨a, ha, -⟩ := hmu.upper
  obtain ⟨b, hb, -⟩ := hmu.lower
  obtain ⟨upper, hupper, hdu⟩ := exists_upperShift hrho ha
  obtain ⟨lower, hlower, hdl⟩ := exists_lowerShift hrho hb
  refine ⟨fun c => 1 / 2 * rho * (upper c * upper c + lower c * lower c) -
      (a * a + b * b) / (2 * rho), fun c => rho * (upper c - lower c), fun c => ?_, fun c => ?_,
    fun c => ?_⟩
  · have hne : 2 * rho ≠ 0 := mul_ne_zero two_ne_zero hrho
    rw [Term.value, hupper, hlower, ha, hb, Exact.half_def, Exact.two_def]
    simp only [Scalar.square, Exact.finite_mul, Exact.finite_add, Exact.finite_sub,
      Exact.finite_div _ hne]
  · rw [Term.weight, hupper, hlower, Exact.finite_sub, Exact.finite_mul]
  · have hsquares := ((hdu c).add (hdl c)).const_mul (1 / 2 * rho)
    refine (hsquares.sub_const ((a * a + b * b) / (2 * rho))).congr_deriv ?_
    ring

end Term

/-! ## Entries of the gradient -/

section

variable {E : Type} [NormedAddCommGroup E] [InnerProductSpace ℝ E] [CompleteSpace E]
  {φ χ : E → ℝ} {g k x : E}

/-- The chain rule for a function of a real value. -/
theorem hasGradientAt_comp {ψ : ℝ → ℝ} {w : ℝ} (hψ : HasDerivAt ψ w (φ x))
    (hφ : HasGradientAt φ g x) : HasGradientAt (ψ ∘ φ) (w • g) x := by
  rw [hasGradientAt_iff_hasFDerivAt] at hφ ⊢
  rw [map_smulₛₗ]
  exact hψ.comp_hasFDerivAt x hφ

theorem hasGradientAt_add (hφ : HasGradientAt φ g x) (hχ : HasGradientAt χ k x) :
    HasGradientAt (fun y => φ y + χ y) (g + k) x := by
  rw [hasGradientAt_iff_hasFDerivAt] at hφ hχ ⊢
  rw [map_add]
  exact hφ.add hχ

end

section

variable {x : Points decisions} {rho : ℝ}

theorem addEntry_pointOf (hd : decisions.Nodup) {g : Expr (Exact ℝ)} {row : JacobianRow (Exact ℝ)}
    (hrow : compileRow decisions g = .ok row) {i : ℕ} {s : Symbol} (hs : decisions[i]? = some s)
    {d : ℝ} (hvalue : (g.diff s).valueAt (environment x) = finite d) (w a : ℝ) :
    addEntry (pointOf x) i (finite a) (row, finite w) = finite (a + w * d) :=
  addEntry_eq hrow hs (fun _ hf => (valueAt_of_compile hd hf x).trans hvalue)
    (fun hmentions => Expr.vanishes_diff (.inl hmentions) d hvalue) w a

theorem exists_hasGradient_term (hd : decisions.Nodup) (hrho : rho ≠ 0) {g : Expr (Exact ℝ)}
    {c : Function (Exact ℝ)} {row : JacobianRow (Exact ℝ)} {term : Term (Exact ℝ)}
    (hc : Function.compile decisions g = .ok c) (hrow : compileRow decisions g = .ok row)
    (hmu : term.multiplier.Admissible term.bounds) (hg : g.Smooth (environment x)) :
    ∃ (φ : Points decisions → ℝ) (k : Points decisions),
      (∀ᶠ y in 𝓝 x, term.value (finite rho) (valueAt c (pointOf y)) = finite (φ y)) ∧
        HasGradientAt φ k x ∧
        ∀ (i : Fin decisions.length) (a : ℝ),
          addEntry (pointOf x) i (finite a)
            (row, term.weight (finite rho) (valueAt c (pointOf x))) = finite (a + k i) := by
  obtain ⟨φ, k, hφ, hk, hentries⟩ := Expr.exists_hasGradient hd hg
  obtain ⟨value, weight, hvalue, hweight, hderiv⟩ := Term.exists_real hrho hmu
  refine ⟨value ∘ φ, weight (φ x) • k, ?_, hasGradientAt_comp (hderiv _) hk, fun i a => ?_⟩
  · filter_upwards [hφ] with y hy
    rw [valueAt_of_compile hd hc, hy, hvalue]
    rfl
  · rw [valueAt_of_compile hd hc, hφ.self_of_nhds, hweight,
      addEntry_pointOf hd hrow (List.getElem?_eq_getElem i.isLt) (hentries i)]
    rfl

/-- The induction is on the constraints, with the sums so far as accumulators. -/
theorem exists_hasGradient_terms (hd : decisions.Nodup) (hrho : rho ≠ 0)
    {gs : List (Expr (Exact ℝ))} {cs : List (Function (Exact ℝ))}
    {rows : List (JacobianRow (Exact ℝ))} {terms : List (Term (Exact ℝ))}
    (hcs : List.Forall₂ (fun g c => Function.compile decisions g = .ok c) gs cs)
    (hrows : List.Forall₂ (fun g row => compileRow decisions g = .ok row) gs rows)
    (hmu : ∀ term ∈ terms, term.multiplier.Admissible term.bounds)
    (hgs : ∀ g ∈ gs, g.Smooth (environment x)) :
    ∃ (φ : Points decisions → ℝ) (k : Points decisions),
      (∀ᶠ y in 𝓝 x, ∀ a : ℝ,
        (List.zipWith (fun term c => Term.value term (finite rho) c) terms
          (cs.map fun c => valueAt c (pointOf y))).foldl (· + ·) (finite a) = finite (a + φ y)) ∧
        HasGradientAt φ k x ∧
        ∀ (i : Fin decisions.length) (a : ℝ),
          (rows.zip (List.zipWith (fun term c => Term.weight term (finite rho) c) terms
            (cs.map fun c => valueAt c (pointOf x)))).foldl (addEntry (pointOf x) i) (finite a) =
            finite (a + k i) := by
  induction hcs generalizing rows terms with
  | nil =>
    refine ⟨fun _ => 0, 0, .of_forall fun y a => ?_, hasGradientAt_const x 0, fun i a => ?_⟩
    · simp
    · cases hrows
      simp
  | @cons g c gs cs hc _ ih =>
    cases hrows with
    | @cons _ row _ rows hrow hrows =>
    cases terms with
    | nil =>
      refine ⟨fun _ => 0, 0, .of_forall fun y a => ?_, hasGradientAt_const x 0, fun i a => ?_⟩
      · simp
      · simp
    | cons term terms =>
      obtain ⟨hmu, hmus⟩ := List.forall_mem_cons.1 hmu
      obtain ⟨hg, hgs⟩ := List.forall_mem_cons.1 hgs
      obtain ⟨φ, k, hφ, hk, hentry⟩ := exists_hasGradient_term hd hrho hc hrow hmu hg
      obtain ⟨χ, l, hχ, hl, hentries⟩ := ih hrows hmus hgs
      refine ⟨fun y => φ y + χ y, k + l, ?_, hasGradientAt_add hk hl, fun i a => ?_⟩
      · filter_upwards [hφ, hχ] with y hy hys a
        rw [List.map_cons, List.zipWith_cons_cons, List.foldl_cons, hy, Exact.finite_add, hys,
          add_assoc]
      · rw [List.map_cons, List.zipWith_cons_cons, List.zip_cons_cons, List.foldl_cons, hentry,
          hentries, add_assoc]
        rfl

end

/-! ## Subproblems -/

/-- Over the reals, take a program whose variables are distinct and a subproblem of its model: with
bounds that may be infinite, admissible multipliers, and a positive penalty. At a point where the
objective and the constraints are smooth, the values of the subproblem have a gradient, and the
vector that is computed along with the value is that gradient. -/
theorem hasGradientAt_subproblem {p : Program (Exact ℝ)} {sub : Subproblem (Exact ℝ)} {rho : ℝ}
    (hd : p.decisions.Nodup) (hm : Model.compile p = .ok sub.model)
    (hmu : ∀ term ∈ sub.terms, term.multiplier.Admissible term.bounds)
    (hpenalty : sub.penalty = finite rho) (hrho : 0 < rho) (x : Points p.decisions)
    (hobjective : p.objective.Smooth (environment x))
    (hconstraints : ∀ g ∈ p.constraints, g.Smooth (environment x)) :
    ∃ (φ : Points p.decisions → ℝ) (g : Points p.decisions),
      (∀ᶠ y in 𝓝 x, sub.value (pointOf y) = finite (φ y)) ∧ HasGradientAt φ g x ∧
        sub.valueAndGradient (pointOf x) = (sub.value (pointOf x), pointOf g) := by
  have hc := Model.compiles_of_compile hm
  obtain ⟨φ, g, hφ, hg, hentries⟩ := Expr.exists_hasGradient hd hobjective
  obtain ⟨χ, k, hχ, hk, hsums⟩ :=
    exists_hasGradient_terms hd hrho.ne' hc.constraints hc.jacobian hmu hconstraints
  refine ⟨fun y => φ y + χ y, g + k, ?_, hasGradientAt_add hg hk, ?_⟩
  · filter_upwards [hφ, hχ] with y hy hys
    have hzero : (-0 : Exact ℝ) = finite 0 := congrArg finite neg_zero
    rw [Subproblem.value, Subproblem.valueWith, valueAt_of_compile hd hc.objective, hy, Scalar.sum,
      hzero, hpenalty, Model.constraintValues, hys, zero_add, Exact.finite_add]
  · refine Prod.ext rfl (eq_pointOf ?_ fun i => ?_)
    · exact (Model.length_lagrangianGradient ..).trans hc.gradient.length_eq.symm
    · have hi : p.decisions[(i : ℕ)]? = some p.decisions[i] := List.getElem?_eq_getElem i.isLt
      obtain ⟨d, hentry, hcompile⟩ := exists_getElem?_of_forall₂ hc.gradient hi
      rw [Subproblem.valueAndGradient, getElem?_lagrangianGradient _ _ (nodup_jacobian hc), hentry,
        Option.map_some, valueAt_of_compile hd hcompile, hentries, Subproblem.weights, hpenalty,
        Model.constraintValues, hsums]
      rfl

/-- Minimizes a variable that a constraint keeps from falling below one. -/
def rampProgram : Program (Exact ℝ) := ⟨[⟨"x", 0⟩], .sym ⟨"x", 0⟩, [.sym ⟨"x", 0⟩]⟩

/-- With a multiplier of one and a penalty of one, the shifted violation ends at the value two. -/
noncomputable def rampSubproblem : Subproblem (Exact ℝ) :=
  let x : List Symbol := [⟨"x", 0⟩]
  ⟨⟨1, ⟨x, .input 0⟩, [⟨x, .const 1⟩], [⟨x, .input 0⟩], [[(0, ⟨x, .const 1⟩)]]⟩,
    [⟨⟨finite 1, .infinite false⟩, ⟨finite 1, finite 0⟩⟩], finite 1⟩

theorem hasGradientAt_subproblem_ramp :
    let x : Points rampProgram.decisions := EuclideanSpace.single ⟨0, Nat.one_pos⟩ 2
    (∀ term ∈ rampSubproblem.terms, term.lowerShift rampSubproblem.penalty (finite 2) = 0) ∧
      ∃ (φ : Points rampProgram.decisions → ℝ) (g : Points rampProgram.decisions),
        (∀ᶠ y in 𝓝 x, rampSubproblem.value (pointOf y) = finite (φ y)) ∧ HasGradientAt φ g x ∧
          rampSubproblem.valueAndGradient (pointOf x) =
            (rampSubproblem.value (pointOf x), pointOf g) := by
  intro x
  have hmu : ∀ term ∈ rampSubproblem.terms, term.multiplier.Admissible term.bounds := by
    intro term hterm
    obtain rfl := List.mem_singleton.1 hterm
    exact ⟨⟨1, rfl, one_pos.le, by simp⟩, ⟨0, rfl, le_refl 0, fun _ => rfl⟩⟩
  refine ⟨fun term hterm => ?_, ?_⟩
  · obtain rfl := List.mem_singleton.1 hterm
    have hshift : max ((1 : ℝ) - 2 + 1 / 1) 0 = 0 := by norm_num
    rw [Term.lowerShift, if_pos (Exact.isFinite_finite _), rampSubproblem,
      Exact.finite_div _ one_ne_zero, Exact.finite_sub, Exact.finite_add, Exact.zero_def,
      Exact.max_finite, hshift]
  · exact hasGradientAt_subproblem (p := rampProgram) (by decide) rfl hmu rfl one_pos x trivial
      (fun g hg => by
        obtain rfl := List.mem_singleton.1 hg
        trivial)

end Optima.Lagrangian
