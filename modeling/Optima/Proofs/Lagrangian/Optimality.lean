import Mathlib.Algebra.Field.Rat
import Mathlib.Algebra.Order.Ring.Rat
import Optima.Proofs.Lagrangian.Forces
import Optima.Proofs.Lagrangian.Measures
import Optima.Proofs.Lagrangian.Regularity
import Optima.Proofs.Stationarity

/-!
A success of the augmented Lagrangian method satisfies the first-order conditions of optimality, up
to its tolerances and in exact arithmetic.

* `Balanced`: the multipliers of the variable bounds balance the gradient of the objective and the
  forces of the constraints.
* `Complementary`: only a bound that is near can have a multiplier that counts.
* `FirstOrderOptimal`: the conditions on an output.
* `firstOrderOptimal_of_roundTo`: a regular round whose measures are within tolerances leads to such
  an output.
* `firstOrderOptimal_of_success`: so does every success after at least one round.
-/

namespace Optima.Lagrangian

open Exact (finite)

variable {F : Type} [Field F] [LinearOrder F] [Elementary F]

/-! ## Approximate optimality -/

/-- The multiplier of the bounds of variable `i`, which is `s`, is minus the derivative along it of
the objective and of the constraints times their multipliers. -/
def Balanced (p : Program (Exact F)) (out : Output (Exact F)) (i : Nat) (s : Symbol) : Prop :=
  ∃ slope forces, evaluate p.decisions (p.objective.diff s) out.point = .ok (finite slope) ∧
    List.Forall₂ (Force p.decisions out.point s) (p.constraints.zip out.constraintMultipliers)
      forces ∧
    out.boundMultipliers[i]? = some (finite (-(slope + forces.sum)))

/-- A multiplier of the bounds `l` and `u` of a value `v` exceeds `t` only if `v` is that near to
`u`, and falls below `-t` only if it is that near to `l`. -/
def Complementary (t l u v lam : Exact F) : Prop :=
  (t < lam → u - v ≤ t) ∧ (lam < -t → v - l ≤ t)

/-- The output satisfies the first-order conditions of optimality for the program and the bounds of
the invocation, up to a tolerance `t` and a tolerance `ct` for the violation of constraints. -/
structure FirstOrderOptimal (p : Program (Exact F)) (inv : Invocation (Exact F)) (t ct : Exact F)
    (out : Output (Exact F)) : Prop where
  length_point : out.point.length = p.decisions.length
  length_multipliers : out.constraintMultipliers.length = p.constraints.length
  balanced : ∀ (i : Nat) (s : Symbol), p.decisions[i]? = some s → Balanced p out i s
  complementary_decisions : ∀ (i : Nat) (l u x nu : Exact F),
    inv.decisions.lower[i]? = some l → inv.decisions.upper[i]? = some u →
      out.point[i]? = some x → out.boundMultipliers[i]? = some nu → Complementary t l u x nu
  constraints_eq : List.Forall₂
    (fun g c => evaluate p.decisions g out.point = .ok c) p.constraints out.constraints
  feasible : ∀ (j : Nat) (l u c : Exact F),
    inv.constraints.lower[j]? = some l → inv.constraints.upper[j]? = some u →
      out.constraints[j]? = some c → c - u ≤ ct ∧ l - c ≤ ct
  complementary_constraints : ∀ (j : Nat) (l u c lam : Exact F),
    inv.constraints.lower[j]? = some l → inv.constraints.upper[j]? = some u →
      out.constraints[j]? = some c → out.constraintMultipliers[j]? = some lam →
        Complementary t l u c lam

theorem complementary_zero [IsStrictOrderedRing F] {t : Exact F} (ht : 0 < t) (l u v : Exact F) :
    Complementary t l u v (finite 0) := by
  refine ⟨fun h => absurd (Ordered.le_of_lt ht) (Ordered.lt_iff.1 h).2, fun h => ?_⟩
  have hneg : t < finite (-0) := Exact.lt_finite_of_lt_neg h
  rw [neg_zero] at hneg
  exact absurd (Ordered.le_of_lt ht) (Ordered.lt_iff.1 hneg).2

/-! ## Entries of the gradient -/

theorem exists_map_net {bounds : List (Bounds (Exact F))} {mus : List (Multiplier (Exact F))}
    (h : List.Forall₂ Multiplier.Admissible bounds mus) :
    ∃ ys : List F, mus.map Multiplier.net = ys.map finite := by
  induction h with
  | nil => exact ⟨[], rfl⟩
  | @cons b mu bounds mus hmu _ ih =>
    obtain ⟨ys, hys⟩ := ih
    obtain ⟨y, hy, -⟩ := hmu.upper
    obtain ⟨z, hz, -⟩ := hmu.lower
    refine ⟨(y - z) :: ys, ?_⟩
    rw [List.map_cons, List.map_cons, hys, Multiplier.net, hy, hz, Exact.finite_sub]

section

variable {p : Program (Exact F)} {model : Model (Exact F)} {s : Settings (Exact F)}
  {inv : Invocation (Exact F)} {state : State (Exact F)} {point : List (Exact F)}
  {multipliers : List (Multiplier (Exact F))} {measures : Measures (Exact F)} {t ct : Exact F}

/-- An entry of the gradient that is a number is the derivative of the objective plus the forces. -/
theorem exists_forces_at (hm : model.Compiles p) {ys : List F}
    (hfin : ∀ v ∈ model.lagrangianGradient point (ys.map finite), ∃ z, v = finite z) {i : Nat}
    {v : Symbol} (hv : p.decisions[i]? = some v) :
    ∃ slope forces, evaluate p.decisions (p.objective.diff v) point = .ok (finite slope) ∧
      List.Forall₂ (Force p.decisions point v) (p.constraints.zip (ys.map finite)) forces ∧
      (model.lagrangianGradient point (ys.map finite))[i]? =
        some (finite (slope + forces.sum)) := by
  obtain ⟨d, hd, hcompile⟩ := exists_getElem?_of_forall₂ hm.gradient hv
  have hentry := getElem?_lagrangianGradient point (ys.map finite) (nodup_jacobian hm) i
  rw [hd, Option.map_some] at hentry
  obtain ⟨z, hz⟩ := hfin _ (List.mem_of_getElem? hentry)
  obtain ⟨slope, forces, hslope, hforces, rfl⟩ := exists_forces_of_foldl hm.jacobian hv hz
  exact ⟨slope, forces, evaluate_of_valueAt hcompile hslope, hforces, hz ▸ hentry⟩

/-! ## A regular round -/

/-- The term of a constraint after the round, with the value of the constraint. -/
theorem RoundTo.exists_term (hs : state.Sound (boundsOf inv.constraints) p.decisions.length)
    (h : RoundTo model s inv.decisions (boundsOf inv.constraints) state point multipliers measures)
    (hb : (boundsOf inv.constraints).length = model.constraintCount)
    {j : Nat} {l u c : Exact F} (hl : inv.constraints.lower[j]? = some l)
    (hu : inv.constraints.upper[j]? = some u)
    (hc : (model.constraintValues point)[j]? = some c) :
    ∃ mu y, multipliers[j]? = some mu ∧ Multiplier.Admissible ⟨l, u⟩ mu ∧ c = .finite y ∧
      (Term.mk ⟨l, u⟩ mu, c) ∈
        (termsOf (boundsOf inv.constraints) multipliers).zip (model.constraintValues point) := by
  have hbounds : (boundsOf inv.constraints)[j]? = some ⟨l, u⟩ := by
    simp [boundsOf, List.getElem?_zipWith, hl, hu]
  obtain ⟨mu, hmu, ha⟩ := exists_getElem?_of_forall₂ (h.admissible hs hb) hbounds
  obtain ⟨y, hy⟩ := Exact.isFinite_iff.1 (List.all_eq_true.1 h.finite c (List.mem_of_getElem? hc))
  refine ⟨mu, y, hmu, ha, hy, List.mem_of_getElem? (i := j) ?_⟩
  simp [List.getElem?_zip_eq_some, termsOf, List.getElem?_zipWith, hbounds, hmu, hc]

variable [IsStrictOrderedRing F] (hm : model.Compiles p)
  (hs : state.Sound (boundsOf inv.constraints) p.decisions.length)
  (h : RoundTo model s inv.decisions (boundsOf inv.constraints) state point multipliers measures)

include hm hs h

theorem RoundTo.exists_forces (hb : (boundsOf inv.constraints).length = model.constraintCount)
    {i : Nat} {v : Symbol} (hv : p.decisions[i]? = some v) :
    ∃ slope forces, evaluate p.decisions (p.objective.diff v) point = .ok (.finite slope) ∧
      List.Forall₂ (Force p.decisions point v)
        (p.constraints.zip (multipliers.map Multiplier.net)) forces ∧
      (model.lagrangianGradient point (multipliers.map Multiplier.net))[i]? =
        some (.finite (slope + forces.sum)) := by
  obtain ⟨ys, hys⟩ := exists_map_net (h.admissible hs hb)
  have hfin := h.gradient_finite hm hs
  rw [hys] at hfin ⊢
  exact exists_forces_at hm hfin hv

theorem RoundTo.balanced (hb : (boundsOf inv.constraints).length = model.constraintCount)
    (status : Status) (number : Nat) {i : Nat} {v : Symbol} (hv : p.decisions[i]? = some v) :
    Balanced p (outputAt model point multipliers status number) i v := by
  obtain ⟨slope, forces, hslope, hforces, hentry⟩ := h.exists_forces hm hs hb hv
  refine ⟨slope, forces, hslope, hforces, ?_⟩
  simp [outputAt, output, hentry]

/-- A variable whose value is not a number has no force on it, so its multiplier is zero. -/
theorem RoundTo.entry_eq_zero (hd : p.decisions.Nodup)
    (hb : (boundsOf inv.constraints).length = model.constraintCount) {i : Nat} {x : Exact F}
    {g : F} (hx : point[i]? = some x) (hinf : Scalar.isFinite x = false)
    (hg : (model.lagrangianGradient point (multipliers.map Multiplier.net))[i]? =
      some (.finite g)) : g = 0 := by
  have hlen : point.length = p.decisions.length := (h.projected hm hs.length_point).length_eq
  obtain ⟨v, hv⟩ : ∃ v, p.decisions[i]? = some v :=
    ⟨_, List.getElem?_eq_getElem (hlen ▸ (List.getElem?_eq_some_iff.1 hx).1)⟩
  obtain ⟨slope, forces, hslope, hforces, hentry⟩ := h.exists_forces hm hs hb hv
  have hv' : Scalar.isFinite (assignment p.decisions point v) = false := by
    rwa [assignment_at hd hv hx]
  obtain ⟨z, hz⟩ := (h.value_finite hm hs).1
  have hobjective := evaluate_eq_valueAt hm.objective hlen
  rw [hz] at hobjective
  have hconstraints : ∀ g ∈ p.constraints, ∃ c, evaluate p.decisions g point = .ok (.finite c) := by
    intro g hg
    obtain ⟨j, hj⟩ := List.mem_iff_getElem?.1 hg
    obtain ⟨c, hc, he⟩ := exists_getElem?_of_forall₂ (evaluate_constraintValues hm hlen) hj
    have hfin := List.all_eq_true.1 h.finite c (List.mem_of_getElem? hc)
    obtain ⟨y, rfl⟩ := Exact.isFinite_iff.1 hfin
    exact ⟨y, he⟩
  rw [hg] at hentry
  cases hentry
  rw [diff_eq_zero hv' hobjective hslope, sum_forces_eq_zero hv' hconstraints hforces, add_zero]

theorem RoundTo.exists_entry {i : Nat} {nu : Exact F} {status : Status} {number : Nat}
    (hnu : (outputAt model point multipliers status number).boundMultipliers[i]? = some nu) :
    ∃ g, (model.lagrangianGradient point (multipliers.map Multiplier.net))[i]? = some (.finite g) ∧
      nu = .finite (-g) := by
  rw [outputAt, output, List.getElem?_map, Option.map_eq_some_iff] at hnu
  obtain ⟨v, hv, rfl⟩ := hnu
  obtain ⟨g, rfl⟩ := h.gradient_finite hm hs v (List.mem_of_getElem? hv)
  exact ⟨g, hv, if_pos (Exact.isFinite_finite g)⟩

theorem RoundTo.complementary_decisions (hd : p.decisions.Nodup)
    (hb : (boundsOf inv.constraints).length = model.constraintCount)
    (hbox : inv.decisions.Valid p.decisions.length) (ht : 0 < t) (hw : measures.stationarity ≤ t)
    {i : Nat} {l u x nu : Exact F} (hl : inv.decisions.lower[i]? = some l)
    (hu : inv.decisions.upper[i]? = some u) (hx : point[i]? = some x)
    {status : Status} {number : Nat}
    (hnu : (outputAt model point multipliers status number).boundMultipliers[i]? = some nu) :
    Complementary t l u x nu := by
  obtain ⟨g, hg, rfl⟩ := h.exists_entry hm hs hnu
  obtain ⟨hnl, hnu, -⟩ := hbox.at hl hu
  cases hfin : Scalar.isFinite x with
  | true =>
    obtain ⟨y, rfl⟩ := Exact.isFinite_iff.1 hfin
    rw [h.stationarity_eq hm hs] at hw
    have hway := Box.way_le_of_stationarity hl hu hx hg (Exact.isNaN_finite 0)
      (Box.isNaN_way hnl hnu) hw
    exact ⟨Box.near_upper_of_way hnu ht hway, Box.near_lower_of_way hnl ht hway⟩
  | false =>
    rw [h.entry_eq_zero hm hs hd hb hx hfin hg, neg_zero]
    exact complementary_zero ht l u x

theorem firstOrderOptimal_of_roundTo (hd : p.decisions.Nodup)
    (hbox : inv.decisions.Valid p.decisions.length)
    (hcon : inv.constraints.Valid p.constraints.length) (ht : 0 < t)
    (hw : measures.within t ct = true) (status : Status) (number : Nat) :
    FirstOrderOptimal p inv t ct (outputAt model point multipliers status number) := by
  have hlen : point.length = p.decisions.length := (h.projected hm hs.length_point).length_eq
  have hb : (boundsOf inv.constraints).length = model.constraintCount :=
    (length_boundsOf hcon.length_lower hcon.length_upper).trans hm.constraints.length_eq
  obtain ⟨hviolation, hstationarity, hcomplementarity⟩ := Measures.within_iff.1 hw
  rw [h.measures_eq] at hviolation hcomplementarity
  exact
    { length_point := hlen
      length_multipliers := by
        rw [outputAt, output, List.length_map, ← (h.admissible hs hb).length_eq, hb]
        exact hm.constraints.length_eq.symm
      balanced := fun i v hv => h.balanced hm hs hb status number hv
      complementary_decisions := fun i l u x nu hl hu hx hnu =>
        h.complementary_decisions hm hs hd hb hbox ht hstationarity hl hu hx hnu
      constraints_eq := evaluate_constraintValues hm hlen
      feasible := by
        intro j l u c hl hu hc
        obtain ⟨hnl, hnu, -⟩ := hcon.at hl hu
        obtain ⟨mu, y, -, -, rfl, hmem⟩ := h.exists_term hs hb hl hu hc
        exact Measures.le_of_violation_le hviolation hmem (Exact.isFinite_finite y) hnl hnu
      complementary_constraints := by
        intro j l u c lam hl hu hc hlam
        obtain ⟨hnl, hnu, -⟩ := hcon.at hl hu
        obtain ⟨mu, y, hmu, ha, rfl, hmem⟩ := h.exists_term hs hb hl hu hc
        rw [outputAt, output, List.getElem?_map, hmu] at hlam
        cases hlam
        exact ⟨Measures.near_upper_of_complementarity_le hcomplementarity hmem ha hnu ht,
          Measures.near_lower_of_complementarity_le hcomplementarity hmem ha hnl ht⟩ }

end

/-! ## Successes -/

theorem ofDecimal_pos [IsStrictOrderedRing F] {n : Nat} (hn : 0 < n) (k : Int) :
    (0 : Exact F) < Scalar.ofDecimal n k := by
  have h : (0 : F) < (n : F) * (10 : F) ^ k :=
    mul_pos (Nat.cast_pos.2 hn) (zpow_pos (by norm_num) k)
  exact h

theorem positive_default [IsStrictOrderedRing F] :
    (Settings.default : Settings (Exact F)).Positive where
  tolerance := ofDecimal_pos one_pos _
  violationTolerance := ofDecimal_pos one_pos _
  acceptableTolerance := ofDecimal_pos one_pos _
  acceptableViolationTolerance := ofDecimal_pos one_pos _
  firstPenalty := ofDecimal_pos (by decide) _
  maxPenalty := ofDecimal_pos one_pos _
  penaltyGrowth := by
    have h : (1 : F) < ((10 : ℕ) : F) * (10 : F) ^ (0 : ℤ) := by norm_num
    exact h

/-- A success after at least one round satisfies the first-order conditions up to the tolerances
that its status stands for. -/
theorem firstOrderOptimal_of_success [IsStrictOrderedRing F] {p : Program (Exact F)}
    {model : Model (Exact F)} {opts : Options (Exact F)} {s : Settings (Exact F)}
    {inv : Invocation (Exact F)}
    (hd : p.decisions.Nodup) (hm : Model.compile p = .ok model)
    (hs : Settings.ofOptions opts = .ok s)
    (hv : inv.isValid p.decisions.length p.constraints.length = true)
    (hok : (solve model s inv).1.success = true) (hn : 1 ≤ (solve model s inv).1.iterations) :
    ((solve model s inv).1.status = .solved ∧
        FirstOrderOptimal p inv s.tolerance s.violationTolerance (solve model s inv).1) ∨
      ((solve model s inv).1.status = .acceptable ∧
        FirstOrderOptimal p inv s.acceptableTolerance s.acceptableViolationTolerance
          (solve model s inv).1) := by
  have hc := Model.compiles_of_compile hm
  have hpos := positive_ofOptions positive_default hs
  have hfault := Invocation.isValid_iff.1 hv
  obtain ⟨hguess, hbox, hcon⟩ := Invocation.fault?_eq_none_iff.1 hfault
  have hcount : p.constraints.length = model.constraintCount := hc.constraints.length_eq
  have hb : (boundsOf inv.constraints).length = model.constraintCount :=
    (length_boundsOf hcon.length_lower hcon.length_upper).trans hcount
  have hsolve : (solve model s inv).1 = _ :=
    solve_eq_rounds (by rw [hc.size_eq, ← hcount, hfault])
  have hconcludes : Concludes model s inv.decisions (boundsOf inv.constraints)
      (State.Sound (boundsOf inv.constraints) p.decisions.length) (solve model s inv).1 := by
    rw [hsolve] at hok hn ⊢
    exact exists_roundTo_of_success (kept_sound hc hpos hb) s.maxIterations 0
      (sound_startState hpos hguess hb) (by omega) hok hn
  obtain ⟨state, point, multipliers, measures, hsound, hround, hout, hstrict, hacceptable⟩ :=
    hconcludes
  rw [hout] at hok
  rcases Status.isSuccess_iff.1 hok with hst | hst
  · refine .inl ⟨hst, ?_⟩
    rw [hout]
    exact firstOrderOptimal_of_roundTo hc hsound hround hd hbox hcon hpos.tolerance
      (hstrict hst) _ _
  · refine .inr ⟨hst, ?_⟩
    rw [hout]
    exact firstOrderOptimal_of_roundTo hc hsound hround hd hbox hcon hpos.acceptableTolerance
      (hacceptable hst) _ _

/-- Over the rationals only whole powers are defined. -/
instance : Elementary ℚ where
  pi := 355 / 113
  euler := 193 / 71
  sqrt _ := none
  sin _ := none
  cos _ := none
  tan _ := none
  exp _ := none
  ln _ := none
  pow x y := if y.den = 1 ∧ (x ≠ 0 ∨ 0 ≤ y) then some (x ^ y.num) else none

/-- Minimizes a variable that a constraint keeps from falling below one. -/
def floorProgram : Program (Exact ℚ) := ⟨[⟨"x", 0⟩], .sym ⟨"x", 0⟩, [.sym ⟨"x", 0⟩]⟩

def floorModel : Model (Exact ℚ) :=
  let x : List Symbol := [⟨"x", 0⟩]
  ⟨1, ⟨x, .input 0⟩, [⟨x, .const 1⟩], [⟨x, .input 0⟩], [[(0, ⟨x, .const 1⟩)]]⟩

def floorInvocation : Invocation (Exact ℚ) :=
  ⟨[finite 0], ⟨[finite 0], [finite 10]⟩, ⟨[finite 1], [.infinite false]⟩⟩

theorem firstOrderOptimal_of_success_floor :
    FirstOrderOptimal floorProgram floorInvocation (Settings.default : Settings (Exact ℚ)).tolerance
      (Settings.default : Settings (Exact ℚ)).violationTolerance
      (solve floorModel Settings.default floorInvocation).1 := by
  have hm : Model.compile floorProgram = .ok floorModel := rfl
  have hs : Settings.ofOptions (.empty : Options (Exact ℚ)) = .ok Settings.default :=
    if_neg (by decide +kernel)
  have hv : floorInvocation.isValid 1 1 = true := by decide +kernel
  have hsolved : (solve floorModel Settings.default floorInvocation).1.status = .solved := by
    decide +kernel
  rcases firstOrderOptimal_of_success (by decide) hm hs hv (by decide +kernel)
    (by decide +kernel) with h | h
  · exact h.2
  · rw [hsolved] at h
    cases h.1

end Optima.Lagrangian
