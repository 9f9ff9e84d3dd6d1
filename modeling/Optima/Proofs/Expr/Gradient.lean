import Mathlib.Analysis.Calculus.Gradient.Basic
import Mathlib.Analysis.InnerProductSpace.PiL2
import Optima.Proofs.Expr.Compiled
import Optima.Proofs.Expr.Differentiation
import Optima.Proofs.Expr.Vanishing

/-!
Gradients of expressions over the reals: the derivatives along all variables at once.

* `Differentiates`: near a point the values are numbers, and as such they can be differentiated;
  `differentiates_valueAt`: so can those of an expression at a smooth point.
* `environment`: the coordinates of a point as the values of the variables; `line`: the points that
  differ in one coordinate, which one variable goes along.
* `fderiv_single`: the derivative along a coordinate is that of the expression along its variable.
* `exists_hasGradient`: at a smooth point, the values of the derivatives of an expression are the
  entries of its gradient.
-/

open Filter Topology

namespace Optima

open Exact (finite)

/-! ## Values that can be differentiated -/

section

variable {E : Type} [NormedAddCommGroup E] [NormedSpace ℝ E]

/-- Near the point the values are numbers, given by a function that has a derivative there. -/
def Differentiates (h : E → Exact ℝ) (x : E) : Prop :=
  ∃ φ : E → ℝ, (∀ᶠ y in 𝓝 x, h y = finite (φ y)) ∧ DifferentiableAt ℝ φ x

namespace Differentiates

variable {h k : E → Exact ℝ} {x : E} {a b : ℝ}

theorem const (v : ℝ) : Differentiates (fun _ : E => finite v) x :=
  ⟨fun _ => v, .of_forall fun _ => rfl, differentiableAt_const v⟩

theorem unary {op : UnaryOp} (hd : Differentiates h x) (ha : h x = finite a) (hs : op.SmoothAt a) :
    Differentiates (fun y => op.apply (h y)) x := by
  obtain ⟨φ, hφ, hd⟩ := hd
  obtain rfl : φ x = a := Exact.finite.inj (hφ.self_of_nhds.symm.trans ha)
  refine ⟨op.onReal ∘ φ, ?_, (UnaryOp.hasDerivAt_onReal hs).differentiableAt.comp x hd⟩
  filter_upwards [hφ, hd.continuousAt.eventually (UnaryOp.eventually_smoothAt hs)] with y hy hsy
  rw [hy, UnaryOp.apply_finite hsy]
  rfl

/-- The values of an operation on real functions are those of a real function. -/
theorem binary (op : BinaryOp) (hh : Differentiates h x) (hk : Differentiates k x)
    (ha : h x = finite a) (hb : k x = finite b) {ψ : ℝ → ℝ → ℝ}
    (hdef : ∀ φ χ : E → ℝ, DifferentiableAt ℝ φ x → DifferentiableAt ℝ χ x →
      φ x = a → χ x = b →
      (∀ᶠ y in 𝓝 x, op.apply (finite (φ y)) (finite (χ y)) = finite (ψ (φ y) (χ y))) ∧
        DifferentiableAt ℝ (fun y => ψ (φ y) (χ y)) x) :
    Differentiates (fun y => op.apply (h y) (k y)) x := by
  obtain ⟨φ, hφ, hdφ⟩ := hh
  obtain ⟨χ, hχ, hdχ⟩ := hk
  have hφa := Exact.finite.inj (hφ.self_of_nhds.symm.trans ha)
  have hχb := Exact.finite.inj (hχ.self_of_nhds.symm.trans hb)
  obtain ⟨hev, hd⟩ := hdef φ χ hdφ hdχ hφa hχb
  refine ⟨fun y => ψ (φ y) (χ y), ?_, hd⟩
  filter_upwards [hφ, hχ, hev] with y hy hy' hop
  rw [hy, hy', hop]

theorem div (hh : Differentiates h x) (hk : Differentiates k x) (ha : h x = finite a)
    (hb : k x = finite b) (hne : b ≠ 0) : Differentiates (fun y => h y / k y) x := by
  refine binary .div hh hk ha hb (ψ := fun u v => u / v) fun φ χ hφ hχ _ hχb => ?_
  rw [← hχb] at hne
  refine ⟨?_, ?_⟩
  · filter_upwards [hχ.continuousAt.eventually_ne hne] with y hy
    exact Exact.finite_div _ hy
  · simp only [div_eq_mul_inv]
    exact hφ.mul (hχ.inv hne)

/-- A power with a constant exponent. -/
theorem pow_const {c : ℝ} (hh : Differentiates h x) (ha : h x = finite a)
    (hs : PowerSmooth a c) : Differentiates (fun y => Scalar.pow (h y) (finite c)) x := by
  obtain ⟨φ, hφ, hd⟩ := hh
  obtain rfl : φ x = a := Exact.finite.inj (hφ.self_of_nhds.symm.trans ha)
  refine ⟨fun y => φ y ^ c, ?_, hd.rpow_const hs.ne_zero_or_one_le⟩
  filter_upwards [hφ, hd.continuousAt.eventually hs.eventually_of] with y hy hsy
  rw [hy]
  exact Exact.pow_finite (Expr.pow_real hsy.defined)

/-- A power of a positive number, with any exponent. -/
theorem pow (hh : Differentiates h x) (hk : Differentiates k x) (ha : h x = finite a)
    (hb : k x = finite b) (hpos : 0 < a) : Differentiates (fun y => Scalar.pow (h y) (k y)) x := by
  refine binary .pow hh hk ha hb (ψ := fun u v => u ^ v) fun φ χ hφ hχ hφa _ => ?_
  rw [← hφa] at hpos
  refine ⟨?_, hφ.rpow hχ (ne_of_gt hpos)⟩
  filter_upwards [hφ.continuousAt.eventually (eventually_gt_nhds hpos)] with y hy
  exact Exact.pow_finite (Expr.pow_real (.inl hy))

end Differentiates

namespace Expr

/-- The induction is on the expression; its variables may depend on the point in any way that can be
differentiated. -/
theorem differentiates_valueAt {env : E → Symbol → ℝ} {x : E}
    (henv : ∀ s, DifferentiableAt ℝ (fun y => env y s) x) {e : Expr (Exact ℝ)}
    (h : e.Smooth (env x)) : Differentiates (fun y => e.valueAt (env y)) x := by
  induction e with
  | const v =>
    obtain ⟨a, rfl⟩ := h
    exact .const a
  | sym s => exact ⟨fun y => env y s, .of_forall fun _ => rfl, henv s⟩
  | unary op e ih =>
    obtain ⟨he, a, ha, hs⟩ := h
    exact (ih he).unary ha hs
  | binary l op r ihl ihr =>
    obtain ⟨hl, hr, a, b, ha, hb, hs⟩ := h
    have hdl := ihl hl
    have hdr := ihr hr
    cases op with
    | add => exact hdl.binary .add hdr ha hb fun _ _ hφ hχ _ _ =>
        ⟨.of_forall fun _ => rfl, hφ.add hχ⟩
    | sub => exact hdl.binary .sub hdr ha hb fun _ _ hφ hχ _ _ =>
        ⟨.of_forall fun _ => rfl, hφ.sub hχ⟩
    | mul => exact hdl.binary .mul hdr ha hb fun _ _ hφ hχ _ _ =>
        ⟨.of_forall fun _ => rfl, hφ.mul hχ⟩
    | div => exact hdl.div hdr ha hb hs
    | pow =>
      cases hc : r.isConst with
      | true =>
        obtain ⟨v, rfl⟩ : ∃ v, r = Expr.const v := by
          cases r with
          | const v => exact ⟨v, rfl⟩
          | _ => cases hc
        obtain rfl : v = finite b := hb
        exact hdl.pow_const ha hs
      | false =>
        rw [hc] at hs
        exact hdl.pow hdr ha hb hs

end Expr

end

/-! ## Points and variables -/

/-- The points of the space with a coordinate for each of the variables. -/
abbrev Points (decisions : List Symbol) : Type := EuclideanSpace ℝ (Fin decisions.length)

variable {decisions : List Symbol}

/-- Each variable has the value of its coordinate, and other symbols have the value zero. -/
noncomputable def environment (x : Points decisions) (s : Symbol) : ℝ :=
  if h : decisions.idxOf s < decisions.length then x ⟨decisions.idxOf s, h⟩ else 0

theorem environment_getElem (hd : decisions.Nodup) (x : Points decisions)
    (i : Fin decisions.length) : environment x decisions[i] = x i := by
  have hi : decisions.idxOf decisions[i] = i := hd.idxOf_getElem i i.isLt
  simp only [environment, hi, i.isLt, dite_true, Fin.eta]

theorem differentiableAt_environment (x : Points decisions) (s : Symbol) :
    DifferentiableAt ℝ (fun y : Points decisions => environment y s) x := by
  unfold environment
  split
  · exact (EuclideanSpace.proj _ : Points decisions →L[ℝ] ℝ).differentiableAt
  · exact differentiableAt_const 0

/-- The point with `t` as its coordinate `i`, on the line through `x` along this coordinate. -/
noncomputable def line (x : Points decisions) (i : Fin decisions.length) (t : ℝ) :
    Points decisions :=
  x + (t - x i) • EuclideanSpace.single i 1

theorem line_self (x : Points decisions) (i : Fin decisions.length) : line x i (x i) = x := by
  rw [line, sub_self, zero_smul, add_zero]

theorem hasDerivAt_line (x : Points decisions) (i : Fin decisions.length) :
    HasDerivAt (line x i) (EuclideanSpace.single i 1) (x i) := by
  have h := ((hasDerivAt_id (x i)).sub_const (x i)).smul_const
    (EuclideanSpace.single i (1 : ℝ) : Points decisions)
  rw [one_smul] at h
  exact h.const_add x

/-- Along the line, the variable goes through the numbers and all others stay. -/
theorem environment_line (hd : decisions.Nodup) (x : Points decisions) (i : Fin decisions.length)
    (t : ℝ) : environment (line x i t) = Function.update (environment x) decisions[i] t := by
  funext s
  by_cases hs : s = decisions[i]
  · subst hs
    rw [environment_getElem hd, Function.update_self]
    simp [line]
  · rw [Function.update_of_ne hs]
    unfold environment
    split
    · next h =>
      have hne : (⟨decisions.idxOf s, h⟩ : Fin decisions.length) ≠ i := by
        rintro rfl
        exact hs (List.getElem_idxOf h).symm
      simp [line, hne]
    · rfl

/-! ## Gradients -/

namespace Expr

/-- The value depends only on the symbols that occur. -/
theorem eval_congr {α : Type} [Scalar α] {env env' : Symbol → α} {e : Expr α}
    (h : ∀ s ∈ e.occurrences, env s = env' s) : e.eval env = e.eval env' := by
  induction e with
  | const v => rfl
  | sym s => exact h s List.mem_cons_self
  | unary op a ih => rw [eval, eval, ih h]
  | binary l op r ihl ihr =>
    rw [eval, eval, ihl fun s hs => h s (List.mem_append_left _ hs),
      ihr fun s hs => h s (List.mem_append_right _ hs)]

variable {e : Expr (Exact ℝ)} {x : Points decisions}

/-- Both are the derivative along the line. -/
theorem fderiv_single (hd : decisions.Nodup) {φ : Points decisions → ℝ}
    (hφ : ∀ᶠ y in 𝓝 x, e.valueAt (environment y) = finite (φ y)) (hdiff : DifferentiableAt ℝ φ x)
    {i : Fin decisions.length} {d : ℝ} (hp : e.HasPartial decisions[i] (environment x) d) :
    fderiv ℝ φ x (EuclideanSpace.single i 1) = d := by
  obtain ⟨χ, hχ, hdχ⟩ := hp
  rw [environment_getElem hd] at hχ hdχ
  have hline : HasDerivAt (φ ∘ line x i) (fderiv ℝ φ x (EuclideanSpace.single i 1)) (x i) := by
    have h := hdiff.hasFDerivAt
    rw [← line_self x i] at h
    have hcomp := h.comp_hasDerivAt (x i) (hasDerivAt_line x i)
    rwa [line_self] at hcomp
  have hnear : ∀ᶠ t in 𝓝 (x i), e.valueAt (environment (line x i t)) = finite (φ (line x i t)) := by
    have hcont := (hasDerivAt_line x i).continuousAt
    rw [ContinuousAt, line_self] at hcont
    exact hcont.eventually hφ
  refine hline.unique (hdχ.congr_of_eventuallyEq ?_)
  filter_upwards [hnear, hχ] with t ht ht'
  rw [environment_line hd, ht'] at ht
  exact (Exact.finite.inj ht).symm

/-- At a smooth point, the values of an expression have a gradient, and its entries are the values
of the derivatives with respect to the variables. -/
theorem exists_hasGradient (hd : decisions.Nodup) (h : e.Smooth (environment x)) :
    ∃ (φ : Points decisions → ℝ) (g : Points decisions),
      (∀ᶠ y in 𝓝 x, e.valueAt (environment y) = finite (φ y)) ∧ HasGradientAt φ g x ∧
        ∀ i : Fin decisions.length,
          (e.diff decisions[i]).valueAt (environment x) = finite (g i) := by
  obtain ⟨φ, hφ, hdiff⟩ := differentiates_valueAt (differentiableAt_environment x) h
  obtain ⟨g, hg⟩ : ∃ g, HasGradientAt φ g x := ⟨_, hdiff.hasGradientAt⟩
  refine ⟨φ, g, hφ, hg, fun i => ?_⟩
  obtain ⟨d, hvalue, hp⟩ := e.exists_hasPartial decisions[i] (environment x) h
  have hentry : g i = fderiv ℝ φ x (EuclideanSpace.single i 1) := by
    rw [hg.fderiv_apply, EuclideanSpace.inner_single_right]
    simp
  rw [hvalue, hentry, fderiv_single hd hφ hdiff hp]

end Expr

end Optima
