import Optima.Proofs.Lagrangian.Checked
import Optima.Proofs.Lagrangian.Feasibility

/-!
Every output of the augmented Lagrangian method is well formed, whatever the settings and the
invocation.

* `Ends`: what an output after some rounds consists of; `ends_rounds`: every run of rounds leads to
  such an output.
* `evaluated_of_success`: in any arithmetic, a success tells the objective at a point of the right
  dimension.
* `WellFormed`: the dimensions, the status and the place of an output.
* `wellFormed_solve`: the method reads nothing that is missing, and its output is well formed.
-/

namespace Optima.Lagrangian

variable {α : Type} [Scalar α] {p : Program α} {model : Model α} {s : Settings α} {box : Box α}
  {bounds : List (Bounds α)} {state : State α} {inv : Invocation α} {out : Output α} {n m : Nat}

/-! ## Outputs after rounds -/

/-- The output tells of a point of the box with the values and derivatives there, and of at most
`limit` rounds. -/
structure Ends (model : Model α) (box : Box α) (n limit : Nat) (out : Output α) : Prop where
  projected : Descent.Projected box n out.point
  output_eq : out = output model out.point (model.constraintValues out.point)
    out.constraintMultipliers out.status out.iterations
  length_multipliers : out.constraintMultipliers.length = model.constraintCount
  status_ne : out.status ≠ .invalidInput
  iterations_le : out.iterations ≤ limit

theorem ne_invalidInput_of_ending? {penalty : α} {before now : Measures α} {status : Status}
    (h : ending? s penalty before now = some status) : status ≠ .invalidInput := by
  rcases ending?_cases s penalty before now with
    ⟨-, he⟩ | ⟨-, he | ⟨-, ⟨-, he⟩ | ⟨-, he⟩⟩⟩ <;> rw [he] at h <;> cases h <;> nofun

theorem ends_exhausted (hs : state.Shaped box n model.constraintCount) {number limit : Nat}
    (hn : number ≤ limit) : Ends model box n limit (exhausted model s number state) where
  projected := hs.projected
  output_eq := rfl
  length_multipliers := (List.length_map _).trans hs.length_multipliers
  status_ne := by
    unfold exhausted output
    dsimp only
    split <;> nofun
  iterations_le := hn

variable (hm : model.Compiles p) (hb : bounds.length = model.constraintCount)

include hm in
theorem ends_invalidOutput (hs : state.Shaped box p.decisions.length model.constraintCount)
    {number limit : Nat} (hn : number ≤ limit) :
    Ends model box p.decisions.length limit
      (invalidOutput model (outcomeOf model s box bounds state).point number) where
  projected := (faithful_outcome hm hs.projected.length_eq).projected
  output_eq := rfl
  length_multipliers := List.length_replicate.trans (model.length_constraintValues _)
  status_ne := nofun
  iterations_le := hn

include hm hb

theorem RoundTo.ends {point : List α} {multipliers : List (Multiplier α)} {measures : Measures α}
    (h : RoundTo model s box bounds state point multipliers measures)
    (hs : state.Shaped box p.decisions.length model.constraintCount) {status : Status}
    (hst : status ≠ .invalidInput) {number limit : Nat} (hn : number ≤ limit) :
    Ends model box p.decisions.length limit (outputAt model point multipliers status number) where
  projected := h.projected hm hs.projected.length_eq
  output_eq := rfl
  length_multipliers :=
    (List.length_map _).trans (h.length_multipliers hb hs.length_multipliers)
  status_ne := hst
  iterations_le := hn

/-- The induction is on the rounds that remain; the shape of the state is carried along. -/
theorem ends_rounds (remaining done : Nat)
    (hs : state.Shaped box p.decisions.length model.constraintCount) {limit : Nat}
    (hn : done + remaining ≤ limit) :
    Ends model box p.decisions.length limit
      (rounds model s box bounds remaining done state).1 := by
  induction remaining generalizing done state with
  | zero => exact ends_exhausted hs hn
  | succ remaining ih =>
    rcases round_cases model s box bounds (done + 1) state with ho |
      ⟨point, multipliers, measures, hround, ⟨status, he, ho⟩ | ⟨-, ho⟩⟩
    · rw [rounds_done ho]
      exact ends_invalidOutput hm hs (by omega)
    · rw [rounds_done ho]
      exact hround.ends hm hb hs (ne_invalidInput_of_ending? he) (by omega)
    · rw [rounds_next ho]
      exact ih (done + 1) (kept_shaped hm hb _ _ _ _ hs hround) (by omega)

omit hm hb

/-- The output for an invocation that is not rejected, in any arithmetic. -/
theorem ends_solve (hm : model.Compiles p) (s : Settings α)
    (hf : inv.fault? model.size model.constraintCount = none) :
    Ends model inv.decisions p.decisions.length s.maxIterations (solve model s inv).1 := by
  obtain ⟨hguess, hlower, hupper⟩ := Invocation.lengths_of_fault? hf
  rw [solve_eq_rounds hf]
  exact ends_rounds hm (length_boundsOf hlower hupper) _ 0
    (shaped_startState (hguess.trans hm.size_eq) _) (Nat.zero_add _).le

/-- The point of a success has one coordinate for each variable, and the objective is the value
there. -/
theorem evaluated_of_success (hm : model.Compiles p) (s : Settings α) (inv : Invocation α)
    (h : (solve model s inv).1.success = true) :
    (solve model s inv).1.point.length = p.decisions.length ∧
      (solve model s inv).1.objective =
        valueAt model.objective (solve model s inv).1.point := by
  cases hf : inv.fault? model.size model.constraintCount with
  | some fault =>
    rw [solve_eq_rejected hf] at h
    cases h
  | none =>
    have hends := ends_solve hm s hf
    exact ⟨hends.projected.length_eq, congrArg Output.objective hends.output_eq⟩

/-! ## All outputs -/

/-- What holds of every output for `n` variables and `m` constraints. -/
structure WellFormed (n m : Nat) (s : Settings α) (inv : Invocation α) (out : Output α) : Prop where
  length_point : out.point.length = n
  length_boundMultipliers : out.boundMultipliers.length = n
  length_constraintMultipliers : out.constraintMultipliers.length = m
  length_constraints : out.constraints.length = m
  boundMultipliers_finite : ∀ v ∈ out.boundMultipliers, Scalar.isFinite v = true
  iterations_le : out.iterations ≤ s.maxIterations
  success_iff : out.success = true ↔ out.status = .solved ∨ out.status = .acceptable
  invalidInput_iff : out.status = .invalidInput ↔ inv.isValid n m = false
  valid_iff : out.status ≠ .invalidInput ↔
    inv.guess.length = n ∧ inv.decisions.Valid n ∧ inv.constraints.Valid m
  contains : out.status ≠ .invalidInput → inv.decisions.Contains out.point
  defined : out.status ≠ .invalidInput → ∀ x ∈ out.point, Scalar.isNaN x = false

variable [Arithmetic α]

theorem isFinite_boundMultiplier (v : α) :
    Scalar.isFinite (if Scalar.isFinite v then -v else 0) = true := by
  split
  · next h => exact Arithmetic.isFinite_neg h
  · exact Arithmetic.isFinite_zero

theorem wellFormed_of_ends (h : Ends model inv.decisions n s.maxIterations out)
    (hg : model.gradient.length = n) (hm : model.constraintCount = m)
    (hf : inv.fault? n m = none) : WellFormed n m s inv out := by
  have hv := Invocation.fault?_eq_none_iff.1 hf
  have hcontains : inv.decisions.Contains out.point := by
    obtain ⟨y, -, hy⟩ := h.projected
    rw [hy]
    exact Box.contains_project hv.2.1 y
  have hmultipliers := congrArg Output.boundMultipliers h.output_eq
  exact
    { length_point := h.projected.length_eq
      length_boundMultipliers := by
        rw [hmultipliers, output, List.length_map, Model.length_lagrangianGradient, hg]
      length_constraintMultipliers := h.length_multipliers.trans hm
      length_constraints := by
        rw [congrArg Output.constraints h.output_eq, ← hm]
        exact model.length_constraintValues _
      boundMultipliers_finite := by
        intro v hv
        rw [hmultipliers, output, List.mem_map] at hv
        obtain ⟨w, -, rfl⟩ := hv
        exact isFinite_boundMultiplier w
      iterations_le := h.iterations_le
      success_iff := by
        rw [congrArg Output.success h.output_eq]
        exact Status.isSuccess_iff
      invalidInput_iff :=
        ⟨fun hst => absurd hst h.status_ne, fun hn => by simp [Invocation.isValid, hf] at hn⟩
      valid_iff := ⟨fun _ => hv, fun _ => h.status_ne⟩
      contains := fun _ => hcontains
      defined := fun _ => Box.defined_of_contains hv.2.1 h.projected.length_eq hcontains }

theorem wellFormed_rejected {fault : Invocation.Fault α} (hf : inv.fault? n m = some fault) :
    WellFormed n m s inv (Output.rejected inv.guess n m) where
  length_point := by
    unfold Output.rejected
    dsimp only
    split
    · next h => exact h
    · exact List.length_replicate
  length_boundMultipliers := List.length_replicate
  length_constraintMultipliers := List.length_replicate
  length_constraints := List.length_replicate
  boundMultipliers_finite := fun v hv => by
    rw [List.eq_of_mem_replicate hv]
    exact Arithmetic.isFinite_zero
  iterations_le := Nat.zero_le _
  success_iff := by simp [Output.rejected]
  invalidInput_iff := ⟨fun _ => by simp [Invocation.isValid, hf], fun _ => rfl⟩
  valid_iff := by
    rw [← Invocation.fault?_eq_none_iff, hf]
    exact ⟨fun hst => absurd rfl hst, fun h => absurd h (Option.some_ne_none fault)⟩
  contains := fun hst => absurd rfl hst
  defined := fun hst => absurd rfl hst

/-- For every program, settings and invocation, nothing is read that is missing, and the output is
well formed; a point that is not merely handed back lies in the box. -/
theorem wellFormed_solve (hm : Model.compile p = .ok model) (s : Settings α)
    (inv : Invocation α) :
    solve? model s inv = some (solve model s inv) ∧
      WellFormed p.decisions.length p.constraints.length s inv (solve model s inv).1 := by
  have hc := Model.compiles_of_compile hm
  have hcount : model.constraintCount = p.constraints.length := hc.constraints.length_eq.symm
  refine ⟨solve?_eq hm s inv, ?_⟩
  cases hfault : inv.fault? model.size model.constraintCount with
  | some fault =>
    rw [solve_eq_rejected hfault, hc.size_eq, hcount]
    exact wellFormed_rejected (by rw [← hc.size_eq, ← hcount, hfault])
  | none =>
    have hv : inv.fault? p.decisions.length p.constraints.length = none := by
      rw [← hc.size_eq, ← hcount, hfault]
    obtain ⟨hguess, -, hcon⟩ := Invocation.fault?_eq_none_iff.1 hv
    have hb : (boundsOf inv.constraints).length = model.constraintCount :=
      (length_boundsOf hcon.length_lower hcon.length_upper).trans hcount.symm
    have hends : Ends model inv.decisions p.decisions.length s.maxIterations
        (solve model s inv).1 := by
      rw [solve_eq_rounds hfault]
      exact ends_rounds hc hb _ 0 (shaped_startState hguess _) (Nat.zero_add _).le
    exact wellFormed_of_ends hends hc.gradient.length_eq.symm hcount hv

/-- A guess that is not a number is no obstacle. -/
theorem wellFormed_solve_wall :
    solve? wallModel Settings.default ⟨[Scalar.nan], ⟨[0], [10]⟩, ⟨[1], [Scalar.infinity]⟩⟩ =
        some (solve wallModel Settings.default
          ⟨[Scalar.nan], ⟨[0], [10]⟩, ⟨[1], [Scalar.infinity]⟩⟩) ∧
      WellFormed 1 1 Settings.default ⟨[Scalar.nan], ⟨[0], [10]⟩, ⟨[1], [Scalar.infinity]⟩⟩
        (solve wallModel Settings.default
          ⟨[Scalar.nan], ⟨[0], [10]⟩, ⟨[1], [Scalar.infinity]⟩⟩).1 :=
  wellFormed_solve (p := wallProgram) rfl Settings.default
    ⟨[Scalar.nan], ⟨[0], [10]⟩, ⟨[1], [Scalar.infinity]⟩⟩

end Optima.Lagrangian
