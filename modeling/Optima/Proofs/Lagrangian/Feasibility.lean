import Optima.Proofs.Lagrangian.Measures
import Optima.Proofs.Lagrangian.Shape
import Optima.Proofs.Scalar.Double

/-!
A success of the augmented Lagrangian method is feasible as computed: with the operations that the
method itself has used, rounding included.

* `Feasible`: what an output says of its point is what the program gives there, all of it is finite,
  and no side of a constraint is violated by more than a tolerance.
* `feasible_of_roundTo`: a regular round whose violation is within a tolerance leads to such an
  output.
* `feasible_of_success`: so does every success after at least one round.
-/

namespace Optima.Lagrangian

variable {α : Type} [Scalar α]

/-- The values that the output has are those of the program at its point; they are finite, and
those of the constraints violate no bound of the invocation by more than `ct`. -/
structure Feasible (p : Program α) (inv : Invocation α) (ct : α) (out : Output α) : Prop where
  objective_eq : evaluate p.decisions p.objective out.point = .ok out.objective
  objective_finite : Scalar.isFinite out.objective = true
  constraints_eq : List.Forall₂
    (fun g c => evaluate p.decisions g out.point = .ok c) p.constraints out.constraints
  constraints_finite : ∀ c ∈ out.constraints, Scalar.isFinite c = true
  length_lower : inv.constraints.lower.length = p.constraints.length
  length_upper : inv.constraints.upper.length = p.constraints.length
  within : ∀ (j : Nat) (l u c : α), inv.constraints.lower[j]? = some l →
    inv.constraints.upper[j]? = some u → out.constraints[j]? = some c → c - u ≤ ct ∧ l - c ≤ ct

variable [Arithmetic α] {p : Program α} {model : Model α} {s : Settings α} {inv : Invocation α}
  {state : State α} {point : List α} {multipliers : List (Multiplier α)} {measures : Measures α}
  {t ct : α}

/-- Where the subproblem has a finite value, so has the objective. -/
theorem RoundTo.objective_finite {box : Box α} {bounds : List (Bounds α)} (hm : model.Compiles p)
    (hs : state.point.length = p.decisions.length)
    (h : RoundTo model s box bounds state point multipliers measures) :
    Scalar.isFinite (valueAt model.objective point) = true := by
  have hfin := h.allFinite hm hs
  rw [Descent.allFinite, Bool.and_eq_true] at hfin
  exact (Arithmetic.finite_of_add hfin.1).1

theorem feasible_of_roundTo (hm : model.Compiles p)
    (hs : state.Shaped inv.decisions p.decisions.length model.constraintCount)
    (hcon : inv.constraints.Valid p.constraints.length)
    (h : RoundTo model s inv.decisions (boundsOf inv.constraints) state point multipliers measures)
    (hw : measures.within t ct = true) (status : Status) (number : Nat) :
    Feasible p inv ct (outputAt model point multipliers status number) := by
  have hpoint := hs.projected.length_eq
  have hlen : point.length = p.decisions.length := (h.projected hm hpoint).length_eq
  have hcount : p.constraints.length = model.constraintCount := hm.constraints.length_eq
  have hb : (boundsOf inv.constraints).length = model.constraintCount :=
    (length_boundsOf hcon.length_lower hcon.length_upper).trans hcount
  have hmus : multipliers.length = model.constraintCount :=
    h.length_multipliers hb hs.length_multipliers
  have hviolation := (Measures.within_iff.1 hw).1
  rw [h.measures_eq] at hviolation
  exact
    { objective_eq := evaluate_eq_valueAt hm.objective hlen
      objective_finite := h.objective_finite hm hpoint
      constraints_eq := evaluate_constraintValues hm hlen
      constraints_finite := List.all_eq_true.1 h.finite
      length_lower := hcon.length_lower
      length_upper := hcon.length_upper
      within := by
        intro j l u c hl hu hc
        obtain ⟨hnl, hnu, -⟩ := hcon.at hl hu
        have hj : j < multipliers.length := by
          rw [hmus, ← hcount, ← hcon.length_lower]
          exact (List.getElem?_eq_some_iff.1 hl).1
        have hbounds : (boundsOf inv.constraints)[j]? = some ⟨l, u⟩ := by
          simp [boundsOf, List.getElem?_zipWith, hl, hu]
        have hmem : (Term.mk ⟨l, u⟩ multipliers[j], c) ∈
            (termsOf (boundsOf inv.constraints) multipliers).zip (model.constraintValues point) := by
          refine List.mem_of_getElem? (i := j) (List.getElem?_zip_eq_some.2 ⟨?_, hc⟩)
          simp [termsOf, List.getElem?_zipWith, hbounds, List.getElem?_eq_getElem hj]
        exact Measures.le_of_violation_le hviolation hmem
          (List.all_eq_true.1 h.finite c (List.mem_of_getElem? hc)) hnl hnu }

/-- A success after at least one round is feasible up to the tolerance that its status stands for,
whatever the settings and the invocation. -/
theorem feasible_of_success (hm : Model.compile p = .ok model) (s : Settings α)
    (inv : Invocation α) (hok : (solve model s inv).1.success = true)
    (hn : 1 ≤ (solve model s inv).1.iterations) :
    ((solve model s inv).1.status = .solved ∧
        Feasible p inv s.violationTolerance (solve model s inv).1) ∨
      ((solve model s inv).1.status = .acceptable ∧
        Feasible p inv s.acceptableViolationTolerance (solve model s inv).1) := by
  have hc := Model.compiles_of_compile hm
  have hcount : p.constraints.length = model.constraintCount := hc.constraints.length_eq
  cases hfault : inv.fault? model.size model.constraintCount with
  | some fault =>
    rw [solve_eq_rejected hfault] at hok
    cases hok
  | none =>
    obtain ⟨hguess, -, hcon⟩ := Invocation.fault?_eq_none_iff.1 hfault
    have hb := length_boundsOf hcon.length_lower hcon.length_upper
    have hconcludes : Concludes model s inv.decisions (boundsOf inv.constraints)
        (State.Shaped inv.decisions p.decisions.length model.constraintCount)
        (solve model s inv).1 := by
      rw [solve_eq_rounds hfault] at hok hn ⊢
      exact exists_roundTo_of_success (kept_shaped hc hb) s.maxIterations 0
        (shaped_startState (hguess.trans hc.size_eq) _) (by omega) hok hn
    rw [← hcount] at hcon
    obtain ⟨state, point, multipliers, measures, hshaped, hround, hout, hstrict, hacceptable⟩ :=
      hconcludes
    rw [hout] at hok
    rcases Status.isSuccess_iff.1 hok with hst | hst
    · refine .inl ⟨hst, ?_⟩
      rw [hout]
      exact feasible_of_roundTo hc hshaped hcon hround (hstrict hst) _ _
    · refine .inr ⟨hst, ?_⟩
      rw [hout]
      exact feasible_of_roundTo hc hshaped hcon hround (hacceptable hst) _ _

/-- Minimizes a variable that a constraint keeps from falling below one, in doubles. -/
def wallProgram : Program Float := ⟨[⟨"x", 0⟩], .sym ⟨"x", 0⟩, [.sym ⟨"x", 0⟩]⟩

def wallModel : Model Float :=
  let x : List Symbol := [⟨"x", 0⟩]
  ⟨1, ⟨x, .input 0⟩, [⟨x, .const 1⟩], [⟨x, .input 0⟩], [[(0, ⟨x, .const 1⟩)]]⟩

def wallInvocation : Invocation Float := ⟨[0], ⟨[0], [10]⟩, ⟨[1], [Scalar.infinity]⟩⟩

theorem feasible_of_success_wall :
    Feasible wallProgram wallInvocation (Settings.default : Settings Float).violationTolerance
      (solve wallModel Settings.default wallInvocation).1 := by
  have hm : Model.compile wallProgram = .ok wallModel := rfl
  have hrun : (solve wallModel Settings.default wallInvocation).1.status = .solved ∧
      (solve wallModel Settings.default wallInvocation).1.success = true ∧
      1 ≤ (solve wallModel Settings.default wallInvocation).1.iterations := by
    decide +kernel
  obtain ⟨hsolved, hok, hn⟩ := hrun
  rcases feasible_of_success hm Settings.default wallInvocation hok hn with h | h
  · exact h.2
  · rw [hsolved] at h
    cases h.1

end Optima.Lagrangian
