import Optima.Proofs.Expr.Vanishing
import Optima.Proofs.Lagrangian.Model

/-!
The gradient of the Lagrangian as a sum of forces, in exact arithmetic.

* `Force`: what a constraint adds to the derivative along a symbol.
* `force_unique`: this is determined by the constraint and its multiplier.
* `addEntry_eq`: an entry grows by the weight of a constraint times its derivative, whether or not
  the constraint is left out.
* `exists_forces_of_foldl`: an entry of the gradient that is a number is the derivative of the
  objective plus the forces of the constraints.
* `force_eq_zero`: along a symbol whose value is not a number there are no forces.
-/

namespace Optima.Lagrangian

open Exact (finite)

variable {F : Type} [Field F] [LinearOrder F] [Elementary F] {decisions : List Symbol}
  {point : List (Exact F)} {s : Symbol}

/-- What a constraint with a multiplier adds to the derivative along a symbol: its derivative times
the multiplier. A multiplier of zero adds nothing, and neither does a constraint that does not
mention the symbol. -/
inductive Force (decisions : List Symbol) (point : List (Exact F)) (s : Symbol) :
    Expr (Exact F) × Exact F → F → Prop
  | idle (g : Expr (Exact F)) : Force decisions point s (g, finite 0) 0
  | apart {g : Expr (Exact F)} {y : F} (h : g.dependsOn s = false) :
    Force decisions point s (g, finite y) 0
  | pull {g : Expr (Exact F)} {y d : F} (h : evaluate decisions (g.diff s) point = .ok (finite d)) :
    Force decisions point s (g, finite y) (y * d)

theorem pull_eq_zero {g : Expr (Exact F)} {d : F} (hg : g.dependsOn s = false)
    (hd : evaluate decisions (g.diff s) point = .ok (finite d)) : d = 0 :=
  Expr.vanishes_diff (.inl hg) d (eval_of_evaluate hd)

/-- A constraint and its multiplier have one force along a symbol at most. -/
theorem force_unique {pair : Expr (Exact F) × Exact F} {c c' : F}
    (h : Force decisions point s pair c) (h' : Force decisions point s pair c') : c = c' := by
  cases h with
  | idle g =>
    cases h' with
    | idle | apart => rfl
    | pull => rw [zero_mul]
  | apart hg =>
    cases h' with
    | idle | apart => rfl
    | pull hd => rw [pull_eq_zero hg hd, mul_zero]
  | pull hd =>
    cases h' with
    | idle => rw [zero_mul]
    | apart hg => rw [pull_eq_zero hg hd, mul_zero]
    | pull hd' =>
      cases Except.ok.inj (hd.symm.trans hd')
      rfl

/-! ## The gradient -/

theorem evaluate_of_valueAt {e : Expr (Exact F)} {f : Function (Exact F)} {v : F}
    (hf : Function.compile decisions e = .ok f) (hv : valueAt f point = finite v) :
    evaluate decisions e point = .ok (finite v) := by
  rw [evaluate_of_compile hf]
  unfold valueAt at hv
  split at hv
  · next w hw => rw [hw, hv]
  · cases hv

theorem exists_force_of_addEntry {g : Expr (Exact F)} {row : JacobianRow (Exact F)} {i : Nat}
    (hrow : compileRow decisions g = .ok row) (hs : decisions[i]? = some s) {y z : F}
    {acc : Exact F} (h : addEntry point i acc (row, finite y) = finite z) :
    ∃ a c, acc = finite a ∧ Force decisions point s (g, finite y) c ∧ z = a + c := by
  have hlookup := lookup_compileRow hrow hs
  dsimp only [addEntry] at h
  split at h
  · next hy =>
    cases Exact.beq_finite_iff.1 hy
    exact ⟨z, 0, h, .idle g, (add_zero z).symm⟩
  · split at hlookup
    · obtain ⟨f, hl, hf⟩ := hlookup
      rw [hl] at h
      obtain ⟨a, b, ha, hb, hz⟩ := Exact.add_eq_finite.1 h
      obtain ⟨_, d, ⟨⟩, hd, hyd⟩ := Exact.mul_eq_finite.1 hb
      exact ⟨a, y * d, ha, .pull (evaluate_of_valueAt hf hd), hyd ▸ hz⟩
    · next hdep =>
      rw [hlookup] at h
      exact ⟨z, 0, h, .apart (Bool.eq_false_iff.2 hdep), (add_zero z).symm⟩

/-- What a constraint adds to an entry: its weight times its derivative. It is left out if the
weight is zero, and if the constraint does not mention the variable; the derivative is zero then. -/
theorem addEntry_eq {g : Expr (Exact F)} {row : JacobianRow (Exact F)} {i : Nat}
    (hrow : compileRow decisions g = .ok row) (hs : decisions[i]? = some s) {d : F}
    (hvalue : ∀ f, Function.compile decisions (g.diff s) = .ok f → valueAt f point = finite d)
    (hzero : g.dependsOn s = false → d = 0) (w a : F) :
    addEntry point i (finite a) (row, finite w) = finite (a + w * d) := by
  have hlookup := lookup_compileRow hrow hs
  dsimp only [addEntry]
  split
  · next hw =>
    obtain rfl : w = 0 := Exact.finite.inj (Exact.beq_finite_iff.1 hw)
    rw [zero_mul, add_zero]
  · split at hlookup
    · obtain ⟨f, hl, hf⟩ := hlookup
      rw [hl]
      dsimp only
      rw [hvalue f hf, Exact.finite_mul, Exact.finite_add]
    · next hmentions =>
      rw [hlookup, hzero (Bool.eq_false_iff.2 hmentions), mul_zero, add_zero]

/-- The induction is on the rows: a sum that ends as a number has been one after every row. -/
theorem exists_forces_of_foldl {gs : List (Expr (Exact F))} {rows : List (JacobianRow (Exact F))}
    {i : Nat} (hrows : List.Forall₂ (fun g row => compileRow decisions g = .ok row) gs rows)
    (hs : decisions[i]? = some s) {ys : List F} {acc : Exact F} {z : F}
    (h : (rows.zip (ys.map finite)).foldl (addEntry point i) acc = finite z) :
    ∃ a forces, acc = finite a ∧
      List.Forall₂ (Force decisions point s) (gs.zip (ys.map finite)) forces ∧
      z = a + forces.sum := by
  induction hrows generalizing ys acc with
  | nil => exact ⟨z, [], h, .nil, (add_zero z).symm⟩
  | @cons g row gs rows hrow _ ih =>
    cases ys with
    | nil => exact ⟨z, [], h, .nil, (add_zero z).symm⟩
    | cons y ys =>
      obtain ⟨b, forces, hb, hf, rfl⟩ := ih h
      obtain ⟨a, c, ha, hc, rfl⟩ := exists_force_of_addEntry hrow hs hb
      exact ⟨a, c :: forces, ha, .cons hc hf, by rw [List.sum_cons, add_assoc]⟩

/-! ## Symbols without a number -/

theorem diff_eq_zero {e : Expr (Exact F)} {v d : F}
    (hx : Scalar.isFinite (assignment decisions point s) = false)
    (he : evaluate decisions e point = .ok (finite v))
    (hd : evaluate decisions (e.diff s) point = .ok (finite d)) : d = 0 :=
  Expr.vanishes_diff (.inr ⟨hx, v, eval_of_evaluate he⟩) d (eval_of_evaluate hd)

theorem force_eq_zero {g : Expr (Exact F)} {lam : Exact F} {v c : F}
    (hx : Scalar.isFinite (assignment decisions point s) = false)
    (hg : evaluate decisions g point = .ok (finite v)) (h : Force decisions point s (g, lam) c) :
    c = 0 := by
  cases h with
  | idle => rfl
  | apart => rfl
  | pull hd => rw [diff_eq_zero hx hg hd, mul_zero]

theorem sum_forces_eq_zero {gs : List (Expr (Exact F))} {lams : List (Exact F)} {forces : List F}
    (hx : Scalar.isFinite (assignment decisions point s) = false)
    (hg : ∀ g ∈ gs, ∃ v, evaluate decisions g point = .ok (finite v))
    (h : List.Forall₂ (Force decisions point s) (gs.zip lams) forces) : forces.sum = 0 := by
  induction gs generalizing lams forces with
  | nil =>
    cases h
    rfl
  | cons g gs ih =>
    cases lams with
    | nil =>
      cases h
      rfl
    | cons lam lams =>
      obtain ⟨⟨v, hv⟩, hrest⟩ := List.forall_mem_cons.1 hg
      cases h with
      | cons hc hf => rw [List.sum_cons, force_eq_zero hx hv hc, ih hrest hf, add_zero]

end Optima.Lagrangian
