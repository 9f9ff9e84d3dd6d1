import Optima.Proofs.Lagrangian.Course
import Optima.Proofs.Lagrangian.Feasibility
import Optima.Proofs.Lagrangian.Settings
import Optima.Proofs.Scalar.Double.Growth

/-!
The signs of the multipliers and the range of the penalty, as computed: with rounding, overflow and
undefined products.

* `Multiplier.Proper`: no multiplier is negative or undefined, and that of an infinite side is zero.
* `State.Lawful`: the multipliers are proper, and the penalty is between its first value and its cap.
* `lawful_leadsTo`, `penalty_le_of_leadsTo`: rounds keep that, and the penalty does not decrease.
* `Signed`: the sign that the multiplier of a constraint has if a side is infinite.
* `signs_and_penalties`: so it is at every state, and the multipliers of every output are signed.
-/

namespace Optima.Lagrangian

variable {α : Type} [Scalar α]

/-! ## The penalty -/

/-- The penalty after a raise. -/
def Settings.raise (s : Settings α) (penalty : α) : α :=
  Scalar.min (penalty * s.penaltyGrowth) s.maxPenalty

/-- The penalty is raised after a round that has stalled, or it stays. -/
theorem nextPenalty_cases (s : Settings α) (penalty : α) (before now : Measures α) :
    nextPenalty s penalty before now = penalty ∨
      stalled before now = true ∧ nextPenalty s penalty before now = s.raise penalty := by
  unfold nextPenalty
  split
  · next h => exact .inr ⟨h.2, rfl⟩
  · exact .inl rfl

/-! ## Multipliers -/

/-- The multiplier of a side is a number that is not negative, and zero if its bound is not
finite. -/
structure ProperSide (bound lam : α) : Prop where
  nonneg : 0 ≤ lam
  defined : Scalar.isNaN lam = false
  eq_zero : Scalar.isFinite bound = false → lam = 0

structure Multiplier.Proper (bounds : Bounds α) (mu : Multiplier α) : Prop where
  lower : ProperSide bounds.lower mu.lower
  upper : ProperSide bounds.upper mu.upper

/-- The sign of the multiplier of a whole constraint: a side that is not finite does not push. -/
structure Signed (bounds : Bounds α) (lam : α) : Prop where
  nonneg : Scalar.isFinite bounds.lower = false → 0 ≤ lam
  nonpos : Scalar.isFinite bounds.upper = false → lam ≤ 0
  eq_zero : Scalar.isFinite bounds.lower = false → Scalar.isFinite bounds.upper = false → lam = 0

section

variable [Arithmetic α]

theorem properSide_zero (bound : α) : ProperSide bound 0 where
  nonneg := Ordered.le_refl Arithmetic.isNaN_zero
  defined := Arithmetic.isNaN_zero
  eq_zero := fun _ => rfl

/-- Whatever the move comes to, the larger one of it and zero is not negative. -/
theorem properSide_update {bound lam : α} (h : ProperSide bound lam) (moved : α) :
    ProperSide bound (if Scalar.isFinite bound then Scalar.max moved 0 else lam) := by
  split
  · next hfin =>
    have hle := Ordered.right_le_max (a := moved) (Arithmetic.isNaN_zero (α := α))
    exact ⟨hle, (Ordered.defined_of_le hle).2, fun hinf => by rw [hfin] at hinf; cases hinf⟩
  · exact h

theorem proper_zero (bounds : Bounds α) : Multiplier.Proper bounds ⟨0, 0⟩ :=
  ⟨properSide_zero _, properSide_zero _⟩

theorem proper_updateMultiplier (penalty : α) (term : Term α) (c : α)
    (h : term.multiplier.Proper term.bounds) :
    (updateMultiplier penalty term c).Proper term.bounds :=
  ⟨properSide_update h.lower _, properSide_update h.upper _⟩

theorem signed_zero (bounds : Bounds α) : Signed bounds 0 where
  nonneg _ := Ordered.le_refl Arithmetic.isNaN_zero
  nonpos _ := Ordered.le_refl Arithmetic.isNaN_zero
  eq_zero _ _ := rfl

end

variable [Growth α]

theorem signed_net {bounds : Bounds α} {mu : Multiplier α} (h : mu.Proper bounds) :
    Signed bounds mu.net where
  nonneg hl := by
    rw [Multiplier.net, h.lower.eq_zero hl]
    exact Growth.sub_zero_nonneg h.upper.nonneg
  nonpos hu := by
    rw [Multiplier.net, h.upper.eq_zero hu]
    exact Growth.zero_sub_nonpos h.lower.nonneg
  eq_zero hl hu := by
    rw [Multiplier.net, h.lower.eq_zero hl, h.upper.eq_zero hu]
    exact Growth.zero_sub_zero

/-! ## States -/

variable {model : Model α} {s : Settings α} {inv : Invocation α} {state later : State α}
  {out : Output α} {n : Nat}

/-- The multipliers of the state are proper, and its penalty is in its range. -/
structure State.Lawful (s : Settings α) (bounds : List (Bounds α)) (state : State α) : Prop where
  proper : List.Forall₂ Multiplier.Proper bounds state.multipliers
  firstPenalty_le : s.firstPenalty ≤ state.penalty
  penalty_le : state.penalty ≤ s.maxPenalty

theorem lawful_startState (hpos : s.Positive) (hcap : ¬ s.maxPenalty < s.firstPenalty)
    (hb : (boundsOf inv.constraints).length = model.constraintCount) :
    (startState s inv model.constraintCount).Lawful s (boundsOf inv.constraints) where
  proper := forall₂_replicate proper_zero hb
  firstPenalty_le := Ordered.le_refl (Ordered.defined_of_lt hpos.firstPenalty).2
  penalty_le := (Ordered.not_lt (Ordered.defined_of_lt hpos.maxPenalty).2
      (Ordered.defined_of_lt hpos.firstPenalty).2).1 hcap

namespace State.Lawful

variable {bounds : List (Bounds α)} (hpos : s.Positive) (h : state.Lawful s bounds)

include hpos h

/-- The penalty grows with a raise, unless it is cut back to its cap. -/
theorem penalty_le_raise : state.penalty ≤ s.raise state.penalty :=
  Ordered.le_min
    (Growth.le_mul (Ordered.lt_of_lt_of_le hpos.firstPenalty h.firstPenalty_le) hpos.penaltyGrowth)
    h.penalty_le

theorem penalty_le_nextPenalty (now : Measures α) :
    state.penalty ≤ nextPenalty s state.penalty state.measures now := by
  rcases nextPenalty_cases s state.penalty state.measures now with hn | ⟨-, hn⟩ <;> rw [hn]
  · exact Ordered.le_refl (Ordered.defined_of_le h.penalty_le).1
  · exact h.penalty_le_raise hpos

theorem nextPenalty_le (now : Measures α) :
    nextPenalty s state.penalty state.measures now ≤ s.maxPenalty := by
  rcases nextPenalty_cases s state.penalty state.measures now with hn | ⟨-, hn⟩ <;> rw [hn]
  · exact h.penalty_le
  · exact Ordered.min_le_right (Ordered.defined_of_lt hpos.maxPenalty).2

end State.Lawful

variable (hpos : s.Positive) (hb : (boundsOf inv.constraints).length = model.constraintCount)

include hb in
theorem RoundTo.proper {point : List α} {multipliers : List (Multiplier α)} {measures : Measures α}
    (h : RoundTo model s inv.decisions (boundsOf inv.constraints) state point multipliers measures)
    (hs : state.Lawful s (boundsOf inv.constraints)) :
    List.Forall₂ Multiplier.Proper (boundsOf inv.constraints) multipliers :=
  h.forall₂_multipliers (proper_updateMultiplier state.penalty) hb hs.proper

include hpos

theorem penalty_le_of_leadsTo (hs : state.Lawful s (boundsOf inv.constraints))
    (h : LeadsTo model s inv state later) : state.penalty ≤ later.penalty := by
  obtain ⟨point, multipliers, measures, -, -, rfl⟩ := h
  exact hs.penalty_le_nextPenalty hpos measures

include hb

theorem lawful_leadsTo (hs : state.Lawful s (boundsOf inv.constraints))
    (h : LeadsTo model s inv state later) : later.Lawful s (boundsOf inv.constraints) := by
  have hle := penalty_le_of_leadsTo hpos hs h
  obtain ⟨point, multipliers, measures, hround, -, rfl⟩ := h
  exact
    { proper := hround.proper hb hs
      firstPenalty_le := Ordered.le_trans hs.firstPenalty_le hle
      penalty_le := hs.nextPenalty_le hpos measures }

theorem lawful_stateAfter? (hcap : ¬ s.maxPenalty < s.firstPenalty)
    (h : stateAfter? model s inv n = some state) : state.Lawful s (boundsOf inv.constraints) :=
  invariant_stateAfter? (I := fun _ state => state.Lawful s (boundsOf inv.constraints))
    (lawful_startState hpos hcap hb) (fun _ _ _ hs hl => lawful_leadsTo hpos hb hs hl) h

/-- The induction is on the rounds between the two states. -/
theorem penalty_le_of_stateAfter? (hcap : ¬ s.maxPenalty < s.firstPenalty)
    (h : stateAfter? model s inv n = some state) {k : Nat}
    (hk : stateAfter? model s inv (n + k) = some later) : state.penalty ≤ later.penalty := by
  have hlawful := lawful_stateAfter? hpos hb hcap h
  induction k generalizing later with
  | zero =>
    rw [Nat.add_zero, h] at hk
    cases hk
    exact Ordered.le_refl (Ordered.defined_of_le hlawful.penalty_le).1
  | succ k ih =>
    obtain ⟨before, hbefore, hleads⟩ := exists_leadsTo hk
    exact Ordered.le_trans (ih hbefore)
      (penalty_le_of_leadsTo hpos (lawful_stateAfter? hpos hb hcap hbefore) hleads)

omit hpos

theorem signed_of_finishes (hs : state.Lawful s (boundsOf inv.constraints))
    (h : Finishes model s inv n state out) :
    List.Forall₂ Signed (boundsOf inv.constraints) out.constraintMultipliers := by
  have hnet {mus : List (Multiplier α)}
      (hmus : List.Forall₂ Multiplier.Proper (boundsOf inv.constraints) mus) :
      List.Forall₂ Signed (boundsOf inv.constraints) (mus.map Multiplier.net) :=
    List.forall₂_map_right_iff.2 (hmus.imp fun _ _ => signed_net)
  cases h with
  | invalid hlt =>
    exact forall₂_replicate signed_zero (hb.trans (model.length_constraintValues _).symm)
  | ended hlt hround hstatus => exact hnet (hround.proper hb hs)
  | exhausted hdone => exact hnet hs.proper

omit hb

/-! ## All outputs -/

theorem signed_solve (hpos : s.Positive) (hcap : ¬ s.maxPenalty < s.firstPenalty)
    (inv : Invocation α) :
    (solve model s inv).1.constraintMultipliers.length = model.constraintCount ∧
      ∀ (j : Nat) (l u lam : α), inv.constraints.lower[j]? = some l →
        inv.constraints.upper[j]? = some u →
          (solve model s inv).1.constraintMultipliers[j]? = some lam → Signed ⟨l, u⟩ lam := by
  cases hf : inv.fault? model.size model.constraintCount with
  | some fault =>
    rw [solve_eq_rejected hf]
    refine ⟨List.length_replicate, fun j l u lam _ _ hlam => ?_⟩
    rw [List.eq_of_mem_replicate (List.mem_of_getElem? hlam)]
    exact signed_zero _
  | none =>
    obtain ⟨-, hlower, hupper⟩ := Invocation.lengths_of_fault? hf
    have hb := length_boundsOf hlower hupper
    obtain ⟨done, state, hstate, hfinishes⟩ := finishes_solve (s := s) hf
    have hsigned := signed_of_finishes hb (lawful_stateAfter? hpos hb hcap hstate) hfinishes
    refine ⟨hsigned.length_eq.symm.trans hb, fun j l u lam hl hu hlam => ?_⟩
    have hbounds : (boundsOf inv.constraints)[j]? = some ⟨l, u⟩ := by
      simp [boundsOf, List.getElem?_zipWith, hl, hu]
    obtain ⟨lam', hlam', h⟩ := exists_getElem?_of_forall₂ hsigned hbounds
    rw [hlam] at hlam'
    cases hlam'
    exact h

theorem positive_default_double : (Settings.default : Settings Float).Positive := by
  constructor <;> decide +kernel

/-- In doubles: after any number of rounds the multipliers are proper, those that a round has just
moved included, and the penalty is in its range and below all later ones. The multipliers of every
output, of a rejection too, have the sign that the sides of their constraint allow. -/
theorem signs_and_penalties {p : Program Float} {model : Model Float} {opts : Options Float}
    {s : Settings Float} (hm : Model.compile p = .ok model) (hs : Settings.ofOptions opts = .ok s)
    (inv : Invocation Float) :
    (inv.isValid p.decisions.length p.constraints.length = true →
      ∀ n state, stateAfter? model s inv n = some state →
        state.Lawful s (boundsOf inv.constraints) ∧
          (∀ k later, stateAfter? model s inv (n + k) = some later →
            state.penalty ≤ later.penalty) ∧
          ∀ point multipliers measures,
            RoundTo model s inv.decisions (boundsOf inv.constraints) state point multipliers
              measures →
            List.Forall₂ Multiplier.Proper (boundsOf inv.constraints) multipliers) ∧
      (solve model s inv).1.constraintMultipliers.length = p.constraints.length ∧
        ∀ (j : Nat) (l u lam : Float), inv.constraints.lower[j]? = some l →
          inv.constraints.upper[j]? = some u →
            (solve model s inv).1.constraintMultipliers[j]? = some lam → Signed ⟨l, u⟩ lam := by
  have hcount : p.constraints.length = model.constraintCount :=
    (Model.compiles_of_compile hm).constraints.length_eq
  have hpos := positive_ofOptions positive_default_double hs
  have hcap := (ofOptions_eq_ok hs).2
  rw [hcount]
  refine ⟨fun hv n state hstate => ?_, signed_solve hpos hcap inv⟩
  obtain ⟨-, hlower, hupper⟩ := Invocation.lengths_of_fault? (Invocation.isValid_iff.1 hv)
  have hb := length_boundsOf hlower hupper
  have hlawful := lawful_stateAfter? hpos hb hcap hstate
  exact ⟨hlawful, fun k later hk => penalty_le_of_stateAfter? hpos hb hcap hstate hk,
    fun point multipliers measures hround => hround.proper hb hlawful⟩

/-- The wall has no upper side, so its multiplier is not positive. -/
theorem signs_and_penalties_wall :
    wallInvocation.isValid 1 1 = true ∧
      (∀ n state, stateAfter? wallModel Settings.default wallInvocation n = some state →
        state.Lawful Settings.default (boundsOf wallInvocation.constraints)) ∧
      ∃ lam, (solve wallModel Settings.default wallInvocation).1.constraintMultipliers[0]? =
        some lam ∧ lam ≤ 0 := by
  have hm : Model.compile wallProgram = .ok wallModel := rfl
  have hs : Settings.ofOptions (Options.empty : Options Float) = .ok Settings.default := rfl
  obtain ⟨hstates, hlength, hsigned⟩ := signs_and_penalties hm hs wallInvocation
  have hv : wallInvocation.isValid 1 1 = true := by decide +kernel
  refine ⟨hv, fun n state hn => (hstates hv n state hn).1, ?_⟩
  have hlt : 0 < (solve wallModel Settings.default wallInvocation).1.constraintMultipliers.length := by
    rw [hlength]
    exact Nat.one_pos
  refine ⟨_, List.getElem?_eq_getElem hlt, ?_⟩
  exact (hsigned 0 1 Scalar.infinity _ rfl rfl (List.getElem?_eq_getElem hlt)).nonpos
    (by decide +kernel)

end Optima.Lagrangian
