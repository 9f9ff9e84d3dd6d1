import Optima.Proofs.Checked
import Optima.Proofs.Lagrangian.Shape

/-!
The augmented Lagrangian method with every access checked.

The lists of bounds, multipliers and constraint values are read by position here, as are the entries
of a gradient; a position that is not there leaves the method without a result, and so does a
function that is called with the wrong number of values.

* `forEach?`: what is computed for each constraint from its term and its value.
* `round?`, `rounds?`, `solve?`: the method.
* `Model.Callable`: the functions of a model have values at all points of the right dimension.
* `solve?_eq`: the method has a result for every invocation, and it is that of the method that
  checks nothing.
-/

namespace Optima.Lagrangian

variable {α : Type} [Scalar α]

/-! ## Functions of a model -/

namespace Model

def constraintValues? (m : Model α) (point : List α) : Option (List α) :=
  m.constraints.mapM fun g => g.call? point

def addRow? (point : List α) (weight : α) (gradient : List α) (row : JacobianRow α) :
    Option (List α) :=
  row.foldlM
    (fun gradient (i, d) => do return gradient.set i ((← gradient[i]?) + weight * (← d.call? point)))
    gradient

def lagrangianGradient? (m : Model α) (point weights : List α) : Option (List α) := do
  (m.jacobian.zip weights).foldlM
    (fun gradient (row, weight) =>
      if weight == 0 then some gradient else addRow? point weight gradient row)
    (← m.gradient.mapM fun d => d.call? point)

/-- Every function of the model has a value at each point with `n` coordinates, and every entry of
the Jacobian belongs to one of `n` variables. -/
structure Callable (m : Model α) (n : Nat) : Prop where
  objective : ∀ x, x.length = n → m.objective.call? x = some (valueAt m.objective x)
  gradient : ∀ d ∈ m.gradient, ∀ x, x.length = n → d.call? x = some (valueAt d x)
  constraints : ∀ g ∈ m.constraints, ∀ x, x.length = n → g.call? x = some (valueAt g x)
  jacobian : ∀ row ∈ m.jacobian, ∀ entry ∈ row,
    entry.1 < n ∧ ∀ x, x.length = n → entry.2.call? x = some (valueAt entry.2 x)
  length_gradient : m.gradient.length = n

theorem Compiles.callable {p : Program α} {m : Model α} (h : m.Compiles p) :
    m.Callable p.decisions.length where
  objective x hx := call?_of_compile h.objective hx
  gradient d hd x hx := by
    obtain ⟨i, hi⟩ := List.mem_iff_getElem?.1 hd
    obtain ⟨s, -, hs⟩ := exists_getElem?_of_forall₂ h.gradient.flip hi
    exact call?_of_compile hs hx
  constraints g hg x hx := by
    obtain ⟨j, hj⟩ := List.mem_iff_getElem?.1 hg
    obtain ⟨e, -, he⟩ := exists_getElem?_of_forall₂ h.constraints.flip hj
    exact call?_of_compile he hx
  jacobian row hrow entry hentry := by
    obtain ⟨j, hj⟩ := List.mem_iff_getElem?.1 hrow
    obtain ⟨g, -, hg⟩ := exists_getElem?_of_forall₂ h.jacobian.flip hj
    obtain ⟨k, hk⟩ := List.mem_iff_getElem?.1 hentry
    obtain ⟨v, hv, hfst, hc⟩ := exists_getElem?_of_forall₂ (forall₂_rowEntry hg).flip hk
    have hmem := (List.mem_filter.1 (List.mem_of_getElem? hv)).1
    refine ⟨?_, fun x hx => call?_of_compile hc hx⟩
    rw [hfst]
    exact (List.getElem?_eq_some_iff.1 (List.mem_zipIdx_iff_getElem?.1 hmem)).1
  length_gradient := h.gradient.length_eq.symm

variable {m : Model α} {n : Nat} {point : List α}

theorem constraintValues?_eq (hm : m.Callable n) (hp : point.length = n) :
    m.constraintValues? point = some (m.constraintValues point) :=
  mapM_eq_some_map fun g hg => hm.constraints g hg point hp

theorem addRow?_eq {gradient : List α} {row : JacobianRow α} (hg : gradient.length = n)
    (hrow : ∀ entry ∈ row, entry.1 < n ∧ entry.2.call? point = some (valueAt entry.2 point))
    (weight : α) :
    addRow? point weight gradient row = some (addRow point weight gradient row) := by
  refine foldlM_eq_some_foldl (fun gradient => gradient.length = n) ?_ hg
  intro gradient hg entry hentry
  obtain ⟨hlt, hcall⟩ := hrow entry hentry
  refine ⟨?_, by rw [List.length_modify, hg]⟩
  have hlt' : entry.1 < gradient.length := hg ▸ hlt
  simp [List.getElem?_eq_getElem hlt', hcall, List.modify_eq_set_getElem?]

theorem lagrangianGradient?_eq (hm : m.Callable n) (hp : point.length = n) (weights : List α) :
    m.lagrangianGradient? point weights = some (m.lagrangianGradient point weights) := by
  have hgradient : m.gradient.mapM (fun d => d.call? point) =
      some (m.gradient.map fun d => valueAt d point) :=
    mapM_eq_some_map fun d hd => hm.gradient d hd point hp
  rw [lagrangianGradient?, hgradient]
  refine foldlM_eq_some_foldl (fun gradient => gradient.length = n) ?_
    (by rw [List.length_map, hm.length_gradient])
  rintro gradient hg ⟨row, weight⟩ hpair
  have hrow := hm.jacobian row (List.of_mem_zip hpair).1
  dsimp only
  split
  · exact ⟨rfl, hg⟩
  · refine ⟨addRow?_eq hg (fun entry he => ?_) weight, by rw [length_addRow, hg]⟩
    exact ⟨(hrow entry he).1, (hrow entry he).2 point hp⟩

end Model

/-! ## Constraints -/

/-- The term of constraint `j`. -/
def term? (constraints : Box α) (multipliers : List (Multiplier α)) (j : Nat) :
    Option (Term α) := do
  return ⟨⟨← constraints.lower[j]?, ← constraints.upper[j]?⟩, ← multipliers[j]?⟩

/-- What `f` makes of the term and the value of each constraint. -/
def forEach? {β : Type} (constraints : Box α) (multipliers : List (Multiplier α)) (g : List α)
    (f : Term α → α → β) : Option (List β) :=
  (List.range g.length).mapM fun j => do
    return f (← term? constraints multipliers j) (← g[j]?)

/-- There is a pair of bounds and a multiplier for each of `m` constraints. -/
structure Matched (constraints : Box α) (multipliers : List (Multiplier α)) (m : Nat) : Prop where
  length_lower : constraints.lower.length = m
  length_upper : constraints.upper.length = m
  length_multipliers : multipliers.length = m

omit [Scalar α] in
theorem forEach?_eq {β : Type} {constraints : Box α} {multipliers : List (Multiplier α)}
    {g : List α} (h : Matched constraints multipliers g.length) (f : Term α → α → β) :
    forEach? constraints multipliers g f =
      some (List.zipWith f (termsOf (boundsOf constraints) multipliers) g) := by
  have hbounds : (boundsOf constraints).length = g.length :=
    length_boundsOf h.length_lower h.length_upper
  have hterms : (termsOf (boundsOf constraints) multipliers).length = g.length :=
    (length_termsOf (h.length_multipliers.trans hbounds.symm)).trans hbounds
  have hlen : (List.zipWith f (termsOf (boundsOf constraints) multipliers) g).length = g.length := by
    rw [List.length_zipWith, hterms, Nat.min_self]
  have hrange : forEach? constraints multipliers g f = (List.range (List.zipWith f
      (termsOf (boundsOf constraints) multipliers) g).length).mapM fun j => do
        return f (← term? constraints multipliers j) (← g[j]?) := by
    rw [forEach?, hlen]
  rw [hrange]
  refine mapM_range_eq fun j hj => ?_
  rw [hlen] at hj
  have hl := List.getElem?_eq_getElem (h.length_lower ▸ hj)
  have hu := List.getElem?_eq_getElem (h.length_upper ▸ hj)
  have hmu := List.getElem?_eq_getElem (h.length_multipliers ▸ hj)
  simp [term?, termsOf, boundsOf, List.getElem?_zipWith, hl, hu, hmu, hj]

def Measures.ofValues? (constraints : Box α) (multipliers : List (Multiplier α)) (g : List α)
    (stationarity : α) : Option (Measures α) := do
  let pairs ← forEach? constraints multipliers g Prod.mk
  return {
    violation := pairs.foldl (fun v (term, c) => addViolation v term.bounds c) 0
    stationarity := stationarity
    complementarity := pairs.foldl (fun v (term, c) => addComplementarity v term c) 0 }

theorem Measures.ofValues?_eq {constraints : Box α} {multipliers : List (Multiplier α)}
    {g : List α} (h : Matched constraints multipliers g.length) (stationarity : α) :
    ofValues? constraints multipliers g stationarity =
      some (ofValues (termsOf (boundsOf constraints) multipliers) g stationarity) := by
  rw [ofValues?, forEach?_eq h]
  rfl

/-! ## Subproblems -/

def valueWith? (model : Model α) (constraints : Box α) (multipliers : List (Multiplier α))
    (penalty : α) (point g : List α) : Option α := do
  return (← model.objective.call? point) +
    Scalar.sum (← forEach? constraints multipliers g fun term c => term.value penalty c)

def smooth? (model : Model α) (constraints : Box α) (multipliers : List (Multiplier α))
    (penalty : α) : PartialSmooth α where
  value point := do
    valueWith? model constraints multipliers penalty point (← model.constraintValues? point)
  valueAndGradient point := do
    let g ← model.constraintValues? point
    let value ← valueWith? model constraints multipliers penalty point g
    let weights ← forEach? constraints multipliers g fun term c => term.weight penalty c
    return (value, ← model.lagrangianGradient? point weights)

section

variable {model : Model α} {constraints : Box α} {multipliers : List (Multiplier α)} {n : Nat}

theorem valueWith?_eq (hm : model.Callable n) {point g : List α} (hp : point.length = n)
    (h : Matched constraints multipliers g.length) (penalty : α) :
    valueWith? model constraints multipliers penalty point g =
      some (Subproblem.valueWith ⟨model, termsOf (boundsOf constraints) multipliers, penalty⟩
        point g) := by
  rw [valueWith?, hm.objective point hp, forEach?_eq h]
  rfl

theorem answers_smooth? (hm : model.Callable n)
    (h : Matched constraints multipliers model.constraintCount) (penalty : α) :
    (smooth? model constraints multipliers penalty).Answers
      (Subproblem.smooth ⟨model, termsOf (boundsOf constraints) multipliers, penalty⟩) n := by
  have hmatched (x : List α) : Matched constraints multipliers (model.constraintValues x).length :=
    (model.length_constraintValues x).symm ▸ h
  constructor
  · intro x hx
    simp only [smooth?, Model.constraintValues?_eq hm hx, Option.bind_eq_bind, Option.bind_some,
      valueWith?_eq hm hx (hmatched x)]
    rfl
  · intro x hx
    simp only [smooth?, Model.constraintValues?_eq hm hx, Option.bind_eq_bind, Option.bind_some,
      valueWith?_eq hm hx (hmatched x), forEach?_eq (hmatched x),
      Model.lagrangianGradient?_eq hm hx]
    rfl

end

/-! ## The method -/

def output? (model : Model α) (point g multipliers : List α) (status : Status)
    (iterations : Nat) : Option (Output α) := do
  return {
    point := point
    boundMultipliers := (← model.lagrangianGradient? point multipliers).map fun v =>
      if Scalar.isFinite v then -v else 0
    constraintMultipliers := multipliers
    objective := ← model.objective.call? point
    constraints := g
    success := status.isSuccess
    status := status
    iterations := iterations }

def round? (model : Model α) (s : Settings α) (box constraints : Box α) (number : Nat)
    (state : State α) : Option (Progress α × List (Report α)) := do
  let outcome ← Descent.minimize? (smooth? model constraints state.multipliers state.penalty) box
    state.point s.inner
  let point := outcome.point
  let g ← model.constraintValues? point
  let report := Report.subproblem outcome.termination outcome.iterations outcome.stationarity
  if outcome.termination = .nonFinite ∨ g.all Scalar.isFinite = false then
    let out ← output? model point g (List.replicate g.length 0) .invalidNumber number
    return (.done out, [report])
  else
    let multipliers ← forEach? constraints state.multipliers g (updateMultiplier state.penalty)
    let measures ← Measures.ofValues? constraints multipliers g outcome.stationarity
    let objective ← model.objective.call? point
    let reports := [report, .round number objective measures state.penalty]
    match ending? s state.penalty state.measures measures with
    | some status =>
      let out ← output? model point g (multipliers.map Multiplier.net) status number
      return (.done out, reports)
    | none =>
      return (.next ⟨point, multipliers, nextPenalty s state.penalty state.measures measures,
        measures⟩, reports)

def exhausted? (model : Model α) (s : Settings α) (number : Nat) (state : State α) :
    Option (Output α) := do
  output? model state.point (← model.constraintValues? state.point)
    (state.multipliers.map Multiplier.net)
    (if state.measures.withinAcceptable s then .acceptable else .iterationLimit) number

def rounds? (model : Model α) (s : Settings α) (box constraints : Box α) :
    (remaining done : Nat) → State α → Option (Output α × List (Report α))
  | 0, done, state => do return (← exhausted? model s done state, [])
  | remaining + 1, done, state => do
    match ← round? model s box constraints (done + 1) state with
    | (.done out, reports) => return (out, reports)
    | (.next state, reports) =>
      let (out, later) ← rounds? model s box constraints remaining (done + 1) state
      return (out, reports ++ later)

def search? (model : Model α) (s : Settings α) (inv : Invocation α) :
    Option (Output α × List (Report α)) :=
  match inv.fault? model.size model.constraintCount with
  | some fault =>
    some (Output.rejected inv.guess model.size model.constraintCount, [.rejected fault])
  | none =>
    rounds? model s inv.decisions inv.constraints s.maxIterations 0
      (startState s inv model.constraintCount)

def solve? (model : Model α) (s : Settings α) (inv : Invocation α) :
    Option (Output α × List (Report α)) := do
  let (out, reports) ← search? model s inv
  let last := [Report.finished out.status out.iterations out.objective, Report.timed]
  return (out, (reports ++ last).filter s.shows)

theorem output?_eq {model : Model α} {n : Nat} (hm : model.Callable n) {point : List α}
    (hp : point.length = n) (g multipliers : List α) (status : Status) (iterations : Nat) :
    output? model point g multipliers status iterations =
      some (output model point g multipliers status iterations) := by
  rw [output?, Model.lagrangianGradient?_eq hm hp, hm.objective point hp]
  rfl

variable {p : Program α} {model : Model α} {s : Settings α} {box constraints : Box α}
  {state : State α}

/-- The state for the next round has the shape that this one needs. -/
theorem shaped_of_round_next (hm : model.Compiles p)
    (hb : (boundsOf constraints).length = model.constraintCount)
    (hs : state.Shaped box p.decisions.length model.constraintCount) {number : Nat}
    {state' : State α}
    (h : (round model s box (boundsOf constraints) number state).1 = .next state') :
    state'.Shaped box p.decisions.length model.constraintCount := by
  rcases round_cases model s box (boundsOf constraints) number state with ho |
    ⟨point, multipliers, measures, hround, ⟨status, he, ho⟩ | ⟨-, ho⟩⟩ <;> rw [h] at ho <;> cases ho
  exact kept_shaped hm hb _ _ _ _ hs hround

section

variable (hm : model.Compiles p) (hl : constraints.lower.length = model.constraintCount)
  (hu : constraints.upper.length = model.constraintCount)

include hm hl hu

theorem round?_eq (hs : state.Shaped box p.decisions.length model.constraintCount)
    (number : Nat) : round? model s box constraints number state =
      some (round model s box (boundsOf constraints) number state) := by
  have hc := hm.callable
  have hb := length_boundsOf hl hu
  have hpoint := hs.projected.length_eq
  have hanswers := answers_smooth? hc ⟨hl, hu, hs.length_multipliers⟩ state.penalty
  have hminimize : _ = some (outcomeOf model s box (boundsOf constraints) state) :=
    Descent.minimize?_eq hanswers (gradual_subproblem hm) hpoint s.inner
  have houtcome : (outcomeOf model s box (boundsOf constraints) state).point.length = _ :=
    (faithful_outcome hm hpoint).projected.length_eq
  have hg := model.length_constraintValues
    (outcomeOf model s box (boundsOf constraints) state).point
  have hmatched : Matched constraints state.multipliers (model.constraintValues
      (outcomeOf model s box (boundsOf constraints) state).point).length :=
    hg.symm ▸ ⟨hl, hu, hs.length_multipliers⟩
  have hmoved : Matched constraints (List.zipWith (updateMultiplier state.penalty)
      (termsOf (boundsOf constraints) state.multipliers) (model.constraintValues
        (outcomeOf model s box (boundsOf constraints) state).point)) (model.constraintValues
      (outcomeOf model s box (boundsOf constraints) state).point).length := by
    refine ⟨hmatched.length_lower, hmatched.length_upper, ?_⟩
    rw [List.length_zipWith, length_termsOf (hs.length_multipliers.trans hb.symm), hb, hg,
      Nat.min_self]
  rw [round?, hminimize]
  simp only [Option.bind_eq_bind, Option.bind_some, Model.constraintValues?_eq hc houtcome,
    output?_eq hc houtcome, forEach?_eq hmatched, Measures.ofValues?_eq hmoved,
    hc.objective _ houtcome, Option.pure_def]
  have hfold : Descent.minimize (Subproblem.mk model (termsOf (boundsOf constraints)
      state.multipliers) state.penalty).smooth box state.point s.inner =
    outcomeOf model s box (boundsOf constraints) state := rfl
  simp only [round, hfold]
  split
  · next h => rfl
  · next h =>
    split <;> simp only [*]

/-- The induction is on the rounds that remain; the shape of the state is carried along. -/
theorem rounds?_eq (remaining done : Nat)
    (hs : state.Shaped box p.decisions.length model.constraintCount) :
    rounds? model s box constraints remaining done state =
      some (rounds model s box (boundsOf constraints) remaining done state) := by
  induction remaining generalizing done state with
  | zero =>
    have hc := hm.callable
    have hpoint := hs.projected.length_eq
    rw [rounds?, exhausted?, Model.constraintValues?_eq hc hpoint]
    simp only [Option.bind_eq_bind, Option.bind_some, output?_eq hc hpoint]
    rfl
  | succ remaining ih =>
    rw [rounds?, rounds, round?_eq hm hl hu hs]
    simp only [Option.bind_eq_bind, Option.bind_some]
    cases hround : round model s box (boundsOf constraints) (done + 1) state with
    | mk progress reports =>
      cases progress with
      | done out => rfl
      | next state' =>
        have hs' : state'.Shaped box p.decisions.length model.constraintCount :=
          shaped_of_round_next hm (length_boundsOf hl hu) hs (congrArg Prod.fst hround)
        simp only [ih (done + 1) hs', Option.bind_some]
        rfl

end

/-- Nothing that the method reads is missing, whatever the settings and the invocation. -/
theorem search?_eq [Ordered α] (hm : Model.compile p = .ok model) (s : Settings α)
    (inv : Invocation α) : search? model s inv = some (search model s inv) := by
  have hc := Model.compiles_of_compile hm
  cases hfault : inv.fault? model.size model.constraintCount with
  | some fault => simp only [search?, search, hfault]
  | none =>
    simp only [search?, search, hfault]
    obtain ⟨hguess, -, hcon⟩ := Invocation.fault?_eq_none_iff.1 hfault
    exact rounds?_eq hc hcon.length_lower hcon.length_upper s.maxIterations 0
      (shaped_startState (hguess.trans hc.size_eq) _)

theorem solve?_eq [Ordered α] (hm : Model.compile p = .ok model) (s : Settings α)
    (inv : Invocation α) : solve? model s inv = some (solve model s inv) := by
  rw [solve?, search?_eq hm]
  rfl

end Optima.Lagrangian
