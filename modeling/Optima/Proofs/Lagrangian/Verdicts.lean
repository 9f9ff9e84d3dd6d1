import Optima.Proofs.Lagrangian.Outputs
import Optima.Proofs.Lagrangian.Signs

/-!
What the method has seen when it gives up.

* `State.Seen`: after some rounds, the penalty has been raised on fewer occasions, since the first
  round never stalls, and the last measures were not within the strict tolerances.
* `Infeasible`: what stands behind the verdict that a program is infeasible.
* `Unfinished`: what stands behind the verdict that the rounds are used up.
* `verdicts_founded`: every such verdict is founded on that.
-/

namespace Optima.Lagrangian

variable {α : Type} [Scalar α] {p : Program α} {model : Model α} {s : Settings α}
  {inv : Invocation α} {state later : State α} {out : Output α} {n : Nat} {penalty : α}
  {before now : Measures α} {point : List α} {multipliers : List (Multiplier α)}

/-! ## Endings -/

theorem withinStrict_eq_false (h : ending? s penalty before now = none) :
    now.withinStrict s = false := by
  rcases ending?_cases s penalty before now with ⟨-, he⟩ | ⟨hs, -⟩
  · rw [he] at h
    cases h
  · exact hs

theorem ending?_ne_iterationLimit : ending? s penalty before now ≠ some .iterationLimit := by
  rcases ending?_cases s penalty before now with
    ⟨-, he⟩ | ⟨-, he | ⟨-, ⟨-, he⟩ | ⟨-, he⟩⟩⟩ <;> rw [he] <;> nofun

/-- The method calls a program infeasible only in a round that has stalled under the largest
penalty. -/
theorem of_ending?_infeasible (h : ending? s penalty before now = some .infeasible) :
    s.violationTolerance < now.violation ∧ stalled before now = true ∧ s.maxPenalty ≤ penalty ∧
      now.withinAcceptable s = false := by
  rcases ending?_cases s penalty before now with
    ⟨-, he⟩ | ⟨-, he | ⟨⟨hviolation, hstall, hcap⟩, ⟨-, he⟩ | ⟨ha, he⟩⟩⟩ <;> rw [he] at h <;> cases h
  exact ⟨hviolation, hstall, hcap, ha⟩

/-! ## Violations -/

/-- A violation above a positive tolerance is that of one side of one constraint. -/
theorem RoundTo.exists_violated [Ordered α] {t : α}
    (h : RoundTo model s inv.decisions (boundsOf inv.constraints) state point multipliers now)
    (ht : 0 < t) (hlt : t < now.violation) :
    ∃ (j : Nat) (l u c : α), inv.constraints.lower[j]? = some l ∧
      inv.constraints.upper[j]? = some u ∧ (model.constraintValues point)[j]? = some c ∧
        (t < c - u ∨ t < l - c) := by
  rw [h.measures_eq] at hlt
  rcases Measures.exists_side_of_lt_violation hlt with hneg | ⟨term, c, hmem, hside⟩
  · exact absurd (Ordered.le_of_lt hneg) (Ordered.lt_iff.1 ht).2
  · obtain ⟨j, hj⟩ := List.mem_iff_getElem?.1 hmem
    obtain ⟨hterm, hc⟩ := List.getElem?_zip_eq_some.1 hj
    obtain ⟨b, mu, hb, -, rfl⟩ := List.getElem?_zipWith_eq_some.1 hterm
    obtain ⟨l, u, hl, hu, rfl⟩ := List.getElem?_zipWith_eq_some.1 hb
    exact ⟨j, l, u, c, hl, hu, hc, hside⟩

/-! ## Histories -/

/-- What `n` rounds have left behind in the state. -/
structure State.Seen (s : Settings α) (n : Nat) (state : State α) : Prop where
  unconverged : n = 0 → state.measures = .unconverged
  raised : ∃ i, i ≤ n - 1 ∧ state.penalty = s.raise^[i] s.firstPenalty
  not_strict : 0 < n → state.measures.withinStrict s = false

theorem seen_startState (m : Nat) : (startState s inv m).Seen s 0 where
  unconverged _ := rfl
  raised := ⟨0, le_rfl, rfl⟩
  not_strict h := absurd h (Nat.lt_irrefl 0)

/-- The number of raises up to the cap is the least one; the history has one that is no smaller. -/
theorem State.Seen.exists_raised (h : state.Seen s n) (hn : 0 < n)
    (hcap : s.maxPenalty ≤ state.penalty) :
    ∃ k, s.maxPenalty ≤ s.raise^[k] s.firstPenalty ∧
      (∀ i < k, ¬ s.maxPenalty ≤ s.raise^[i] s.firstPenalty) ∧ k + 1 ≤ n := by
  obtain ⟨i, hi, hpenalty⟩ := h.raised
  rw [hpenalty] at hcap
  have hex : ∃ k, s.maxPenalty ≤ s.raise^[k] s.firstPenalty := ⟨i, hcap⟩
  have hle := Nat.find_min' hex hcap
  exact ⟨Nat.find hex, Nat.find_spec hex, fun _ => Nat.find_min hex, by omega⟩

variable [Growth α]

theorem stalled_unconverged (now : Measures α) : stalled .unconverged now = false :=
  decide_eq_false (Growth.not_half_infinity_lt now.violation)

/-- Before a round that stalls there has been another one. -/
theorem State.Seen.pos_of_stalled (h : state.Seen s n) (hstall : stalled state.measures now = true) :
    0 < n := by
  rw [Nat.pos_iff_ne_zero]
  intro hzero
  rw [h.unconverged hzero, stalled_unconverged] at hstall
  cases hstall

theorem seen_leadsTo (hs : state.Seen s n) (h : LeadsTo model s inv state later) :
    later.Seen s (n + 1) := by
  obtain ⟨point, multipliers, measures, -, hnone, rfl⟩ := h
  refine ⟨nofun, ?_, fun _ => withinStrict_eq_false hnone⟩
  obtain ⟨i, hi, hpenalty⟩ := hs.raised
  rcases nextPenalty_cases s state.penalty state.measures measures with hn | ⟨hstall, hn⟩
  · exact ⟨i, by omega, hn.trans hpenalty⟩
  · -- A raise needs a stall, which leaves room for one more in the count.
    have hpos := hs.pos_of_stalled hstall
    refine ⟨i + 1, by omega, hn.trans ?_⟩
    rw [hpenalty, Function.iterate_succ_apply']

theorem seen_stateAfter? (h : stateAfter? model s inv n = some state) : state.Seen s n :=
  invariant_stateAfter? (seen_startState _) (fun _ _ _ hs hl => seen_leadsTo hs hl) h

/-! ## Verdicts -/

/-- The verdict that a program is infeasible has been reached after the penalty has come to its cap,
in a round that violates a constraint and is not even acceptable. -/
structure Infeasible (p : Program α) (model : Model α) (s : Settings α) (inv : Invocation α)
    (out : Output α) : Prop where
  constraints_eq : List.Forall₂
    (fun g c => evaluate p.decisions g out.point = .ok c) p.constraints out.constraints
  violated : ∃ (j : Nat) (l u c : α), inv.constraints.lower[j]? = some l ∧
    inv.constraints.upper[j]? = some u ∧ out.constraints[j]? = some c ∧
      (s.violationTolerance < c - u ∨ s.violationTolerance < l - c)
  measured : ∃ done state multipliers measures, out.iterations = done + 1 ∧
    stateAfter? model s inv done = some state ∧
      RoundTo model s inv.decisions (boundsOf inv.constraints) state out.point multipliers
        measures ∧
        s.maxPenalty ≤ state.penalty ∧ measures.withinAcceptable s = false
  raised : ∃ k, s.maxPenalty ≤ s.raise^[k] s.firstPenalty ∧
    (∀ i < k, ¬ s.maxPenalty ≤ s.raise^[i] s.firstPenalty) ∧ k + 2 ≤ out.iterations

/-- The verdict that the rounds are used up has been reached after all of them, none of which has
met the strict tolerances; the last one is not even acceptable. -/
structure Unfinished (model : Model α) (s : Settings α) (inv : Invocation α) (out : Output α) :
    Prop where
  iterations_eq : out.iterations = s.maxIterations
  not_strict : ∀ n, 1 ≤ n → n ≤ s.maxIterations → ∃ state,
    stateAfter? model s inv n = some state ∧ state.measures.withinStrict s = false
  not_acceptable : 1 ≤ s.maxIterations → ∃ state,
    stateAfter? model s inv s.maxIterations = some state ∧ out.point = state.point ∧
      state.measures.withinAcceptable s = false

theorem infeasible_of_finishes (hm : model.Compiles p) (ht : 0 < s.violationTolerance)
    (hstate : stateAfter? model s inv n = some state) (h : Finishes model s inv n state out)
    (hp : out.point.length = p.decisions.length) (hst : out.status = .infeasible) :
    Infeasible p model s inv out := by
  cases h with
  | invalid hlt => cases hst
  | exhausted hdone =>
    unfold exhausted output at hst
    dsimp only at hst
    split at hst <;> cases hst
  | @ended point multipliers measures status hlt hround hstatus =>
    obtain rfl : status = .infeasible := hst
    obtain ⟨hviolation, hstall, hcap, hacceptable⟩ := of_ending?_infeasible hstatus
    have hseen := seen_stateAfter? hstate
    obtain ⟨k, hk, hmin, hle⟩ := hseen.exists_raised (hseen.pos_of_stalled hstall) hcap
    exact
      { constraints_eq := evaluate_constraintValues hm hp
        violated := hround.exists_violated ht hviolation
        measured := ⟨n, state, multipliers, measures, rfl, hstate, hround, hcap, hacceptable⟩
        raised := ⟨k, hk, hmin, Nat.succ_le_succ hle⟩ }

theorem unfinished_of_finishes (hstate : stateAfter? model s inv n = some state)
    (h : Finishes model s inv n state out) (hst : out.status = .iterationLimit) :
    Unfinished model s inv out := by
  cases h with
  | invalid hlt => cases hst
  | @ended point multipliers measures status hlt hround hstatus =>
    obtain rfl : status = .iterationLimit := hst
    exact absurd hstatus ending?_ne_iterationLimit
  | exhausted hdone =>
    subst hdone
    have hacceptable : state.measures.withinAcceptable s = false := by
      unfold exhausted output at hst
      dsimp only at hst
      split at hst
      · cases hst
      · next ha => exact Bool.eq_false_iff.2 ha
    refine ⟨rfl, fun k hk hle => ?_, fun _ => ⟨state, hstate, rfl, hacceptable⟩⟩
    obtain ⟨before, hbefore⟩ := exists_stateAfter?_of_le hstate hle
    exact ⟨before, hbefore, (seen_stateAfter? hbefore).not_strict hk⟩

/-- In doubles, with all settings that can be read from options: the method does not give up on a
program without a reason. -/
theorem verdicts_founded {p : Program Float} {model : Model Float} {opts : Options Float}
    {s : Settings Float} (hm : Model.compile p = .ok model) (hs : Settings.ofOptions opts = .ok s)
    (inv : Invocation Float) :
    ((solve model s inv).1.status = .infeasible →
        Infeasible p model s inv (solve model s inv).1) ∧
      ((solve model s inv).1.status = .iterationLimit →
        Unfinished model s inv (solve model s inv).1) := by
  have hc := Model.compiles_of_compile hm
  have hpos := positive_ofOptions positive_default_double hs
  cases hf : inv.fault? model.size model.constraintCount with
  | some fault =>
    rw [solve_eq_rejected hf]
    constructor <;> rintro ⟨⟩
  | none =>
    have hp := (ends_solve hc s hf).projected.length_eq
    obtain ⟨done, state, hstate, hfinishes⟩ := finishes_solve (s := s) hf
    exact ⟨infeasible_of_finishes hc hpos.violationTolerance hstate hfinishes hp,
      unfinished_of_finishes hstate hfinishes⟩

/-- The wall stands behind the end of the box. -/
def barredInvocation : Invocation Float := ⟨[0], ⟨[0], [0.5]⟩, wallInvocation.constraints⟩

def hasty : Settings Float := { Settings.default with maxIterations := 2 }

/-- It takes eleven raises to get from the first penalty to the cap, so thirteen rounds are the
fewest; after two rounds nothing is decided. -/
theorem verdicts_founded_barred :
    ((solve wallModel Settings.default barredInvocation).1.iterations = 13 ∧
      Infeasible wallProgram wallModel Settings.default barredInvocation
        (solve wallModel Settings.default barredInvocation).1) ∧
      Unfinished wallModel hasty barredInvocation (solve wallModel hasty barredInvocation).1 := by
  have hm : Model.compile wallProgram = .ok wallModel := rfl
  have hdefault : Settings.ofOptions (Options.empty : Options Float) = .ok Settings.default := rfl
  have hhasty : Settings.ofOptions ((Options.empty : Options Float).insert
      Setting.maxIterations.key (.int 2)) = .ok hasty := rfl
  have hrun : (solve wallModel Settings.default barredInvocation).1.iterations = 13 ∧
      (solve wallModel Settings.default barredInvocation).1.status = .infeasible := by
    decide +kernel
  have hlimit : (solve wallModel hasty barredInvocation).1.status = .iterationLimit := by
    decide +kernel
  exact ⟨⟨hrun.1, (verdicts_founded hm hdefault barredInvocation).1 hrun.2⟩,
    (verdicts_founded hm hhasty barredInvocation).2 hlimit⟩

end Optima.Lagrangian
