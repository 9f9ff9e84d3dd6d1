import Optima.Lagrangian.Model
import Optima.Proofs.Descent
import Optima.Proofs.Expr.Compiled

/-!
Evaluation and descent with every access checked: what reads outside of a list, or calls a function
with the wrong number of values, has no result.

* `Compiled.eval?`, `Function.call?`: evaluation; `call?_of_compile`: a compiled expression has a
  value at every point of the right dimension.
* `Descent.minimize?`: the descent along a function that need not have a value everywhere.
* `Descent.minimize?_eq`: on a function that has one at all points of the right dimension, it has
  the outcome of the descent that checks nothing.
-/

namespace Optima

/-! ## Lists -/

theorem mapM_eq_some_map {β γ : Type} {f : β → Option γ} {g : β → γ} {bs : List β}
    (h : ∀ b ∈ bs, f b = some (g b)) : bs.mapM f = some (bs.map g) := by
  induction bs with
  | nil => rfl
  | cons b bs ih =>
    obtain ⟨hb, hbs⟩ := List.forall_mem_cons.1 h
    rw [List.mapM_cons, hb, ih hbs]
    rfl

/-- A list is put together from its entries. -/
theorem mapM_range_eq {γ : Type} {f : Nat → Option γ} {cs : List γ}
    (h : ∀ j < cs.length, f j = cs[j]?) : (List.range cs.length).mapM f = some cs := by
  induction cs generalizing f with
  | nil => rfl
  | cons c cs ih =>
    have hrest : (List.range cs.length).mapM (f ∘ Nat.succ) = some cs :=
      ih fun j hj => h (j + 1) (Nat.succ_lt_succ hj)
    rw [List.length_cons, List.range_succ_eq_map, List.mapM_cons, h 0 (Nat.succ_pos _),
      List.mapM_map, hrest]
    rfl

theorem foldlM_eq_some_foldl {β γ : Type} (Inv : β → Prop) {f : β → γ → Option β} {g : β → γ → β}
    {cs : List γ} (h : ∀ b, Inv b → ∀ c ∈ cs, f b c = some (g b c) ∧ Inv (g b c)) {b : β}
    (hb : Inv b) : cs.foldlM f b = some (cs.foldl g b) := by
  induction cs generalizing b with
  | nil => rfl
  | cons c cs ih =>
    obtain ⟨hc, hinv⟩ := h b hb c List.mem_cons_self
    rw [List.foldlM_cons, hc]
    exact ih (fun b' hb' c' hc' => h b' hb' c' (List.mem_cons_of_mem _ hc')) hinv

variable {α : Type} [Scalar α]

/-! ## Evaluation -/

/-- The value of a compiled expression, if every position that it reads is one of the list. -/
def Compiled.eval? (values : List α) : Compiled α → Option α
  | const v => some v
  | input i => values[i]?
  | unary op a => do return op.apply (← a.eval? values)
  | binary l op r => do return op.apply (← l.eval? values) (← r.eval? values)

/-- The value of a function, if there are as many values as it has inputs and it reads no others. -/
def Function.call? (f : Function α) (values : List α) : Option α :=
  if values.length = f.arity then f.body.eval? values else none

theorem eval?_of_ofExpr {inputs : List Symbol} {e : Expr α} {c : Compiled α}
    (h : Compiled.ofExpr inputs e = .ok c) {values : List α}
    (hv : values.length = inputs.length) : c.eval? values = some (c.eval values) := by
  induction e generalizing c with
  | const v =>
    cases h
    rfl
  | sym s =>
    rw [Compiled.ofExpr] at h
    split at h
    · next i hi =>
      cases h
      obtain ⟨hlt, -⟩ := List.idxOf?_eq_some_iff.1 hi
      simp [Compiled.eval?, Compiled.eval, hv, hlt]
    · cases h
  | unary op a ih =>
    obtain ⟨c', ha, ⟨⟩⟩ := bind_eq_ok.1 h
    rw [Compiled.eval?, ih ha]
    rfl
  | binary l op r ihl ihr =>
    obtain ⟨cl, hl, h₁⟩ := bind_eq_ok.1 h
    obtain ⟨cr, hr, ⟨⟩⟩ := bind_eq_ok.1 h₁
    rw [Compiled.eval?, ihl hl, ihr hr]
    rfl

theorem call?_of_compile {inputs : List Symbol} {e : Expr α} {f : Function α}
    (h : Function.compile inputs e = .ok f) {values : List α}
    (hv : values.length = inputs.length) : f.call? values = some (Lagrangian.valueAt f values) := by
  obtain ⟨hi, hb⟩ := compile_eq_ok.1 h
  have harity : values.length = f.arity := by rw [Function.arity, hi, hv]
  rw [Function.call?, if_pos harity, eval?_of_ofExpr hb hv, Lagrangian.valueAt, Function.call,
    if_pos harity]

/-! ## Descent -/

/-- A function on points, which need not have a value, or a value and a gradient, everywhere. -/
structure PartialSmooth (α : Type) where
  value : List α → Option α
  valueAndGradient : List α → Option (α × List α)

/-- At all points with `n` coordinates the one function is what the other is. -/
structure PartialSmooth.Answers (f? : PartialSmooth α) (f : Smooth α) (n : Nat) : Prop where
  value : ∀ x, x.length = n → f?.value x = some (f.value x)
  valueAndGradient : ∀ x, x.length = n → f?.valueAndGradient x = some (f.valueAndGradient x)

namespace Descent

def accepts? (f? : PartialSmooth α) (it : Iterate α) (trial : List α) : Option Bool := do
  let value ← f?.value trial
  return Scalar.isFinite value &&
    decide (value ≤ it.value + armijo * dot it.gradient (displacement trial it.point) +
      roundoff * Scalar.abs it.value)

def backtrack? (f? : PartialSmooth α) (box : Box α) (it : Iterate α) : (count : Nat) →
    (step : α) → Option (Option (List α × α))
  | 0, _ => some none
  | count + 1, step => do
    let trial := box.move it.point it.gradient step
    if ← accepts? f? it trial then return some (trial, step)
    else backtrack? f? box it count (step * Scalar.half)

def advance? (f? : PartialSmooth α) (box : Box α) (rule : StepRule) (it : Iterate α) :
    Option (Advance α) := do
  match ← backtrack? f? box it maxTrials it.step with
  | none => return .stalled
  | some (trial, step) =>
    let (value, gradient) ← f?.valueAndGradient trial
    if allFinite value gradient then
      return .next ⟨trial, value, gradient, nextStep rule it step trial gradient⟩
    else return .nonFinite trial

def run? (f? : PartialSmooth α) (box : Box α) (settings : Settings α) : (remaining done : Nat) →
    Iterate α → Option (Outcome α)
  | 0, done, it =>
    let stationarity := box.stationarity it.point it.gradient
    some ⟨it.point, stationarity, done,
      if stationarity ≤ settings.tolerance then .converged else .iterationLimit⟩
  | remaining + 1, done, it => do
    let stationarity := box.stationarity it.point it.gradient
    if stationarity ≤ settings.tolerance then return ⟨it.point, stationarity, done, .converged⟩
    else
      match ← advance? f? box settings.rule it with
      | .stalled => return ⟨it.point, stationarity, done, .stalled⟩
      | .nonFinite point => return ⟨point, Scalar.nan, done + 1, .nonFinite⟩
      | .next it' => run? f? box settings remaining (done + 1) it'

def minimize? (f? : PartialSmooth α) (box : Box α) (start : List α) (settings : Settings α) :
    Option (Outcome α) := do
  let point := box.project start
  let (value, gradient) ← f?.valueAndGradient point
  if allFinite value gradient then
    run? f? box settings settings.maxIterations 0 ⟨point, value, gradient, firstStep gradient⟩
  else return ⟨point, Scalar.nan, 0, .nonFinite⟩

variable {f? : PartialSmooth α} {f : Smooth α} {box : Box α} {n : Nat} {it : Iterate α}

theorem backtrack?_eq (ha : f?.Answers f n)
    (hm : ∀ step, (box.move it.point it.gradient step).length = n) (count : Nat) (step : α) :
    backtrack? f? box it count step = some (backtrack f box it count step) := by
  induction count generalizing step with
  | zero => rfl
  | succ count ih =>
    have haccepts : accepts? f? it (box.move it.point it.gradient step) =
        some (accepts f it (box.move it.point it.gradient step)) := by
      rw [accepts?, ha.value _ (hm step)]
      rfl
    simp only [backtrack?, backtrack, haccepts, Option.bind_eq_bind, Option.bind_some]
    split
    · rfl
    · exact ih _

theorem advance?_eq (ha : f?.Answers f n) (hf : Gradual f n) (h : it.Sound f box n)
    (rule : StepRule) : advance? f? box rule it = some (advance f box rule it) := by
  have hm (step : α) := (h.projected_move hf step).length_eq
  simp only [advance?, advance, backtrack?_eq ha hm, Option.bind_eq_bind, Option.bind_some]
  cases hb : backtrack f box it maxTrials it.step with
  | none => rfl
  | some found =>
    have hlen : found.1.length = n := by rw [point_of_backtrack hb, hm]
    simp only [ha.valueAndGradient _ hlen, Option.bind_some]
    split <;> rfl

/-- The induction is on the iterations that remain; that the iterates have the right dimension is
carried along. -/
theorem run?_eq (ha : f?.Answers f n) (hf : Gradual f n) (settings : Settings α)
    (remaining done : Nat) (h : it.Sound f box n) :
    run? f? box settings remaining done it = some (run f box settings remaining done it) := by
  induction remaining generalizing done it with
  | zero => rfl
  | succ remaining ih =>
    simp only [run?, run, advance?_eq ha hf h, Option.bind_eq_bind, Option.bind_some]
    split
    · rfl
    · rcases @advance_cases _ _ _ _ _ hf settings.rule it h with ho | ⟨point, ho, -⟩ | ⟨it', ho, hs⟩
      · rw [ho]
        rfl
      · rw [ho]
        rfl
      · rw [ho]
        exact ih (done + 1) hs

theorem minimize?_eq (ha : f?.Answers f n) (hf : Gradual f n) {start : List α}
    (hs : start.length = n) (settings : Settings α) :
    minimize? f? box start settings = some (minimize f box start settings) := by
  have hp : Projected box n (box.project start) := ⟨start, hs, rfl⟩
  simp only [minimize?, minimize, ha.valueAndGradient _ hp.length_eq, Option.bind_eq_bind,
    Option.bind_some]
  split
  · next hfin => exact run?_eq ha hf settings _ 0 ⟨hp, rfl, hfin⟩
  · rfl

end Descent

end Optima
