import Mathlib.Algebra.BigOperators.Fin
import Optima.Proofs.Lagrangian.Optimality

/-!
The gradient of the Lagrangian as a product with the full Jacobian, in exact arithmetic.

The model keeps of every row of the Jacobian only the derivatives along variables that the
constraint mentions, and skips rows of weight zero. Nothing is lost by either.

* `addEntry_of_evaluate`: a row adds its weight times the derivative to an entry, kept or not.
* `foldl_addEntry_of_evaluate`: so the rows add the product of the weights with a column.
* `lagrangianGradient_dense`: the gradient of the objective plus the product of the weights with the
  whole matrix of derivatives.
-/

namespace Optima.Lagrangian

open Exact (finite)

variable {F : Type} [Field F] [LinearOrder F] [Elementary F] {decisions : List Symbol}
  {point : List (Exact F)} {s : Symbol}

theorem valueAt_of_evaluate {e : Expr (Exact F)} {f : Function (Exact F)} {v : Exact F}
    (hf : Function.compile decisions e = .ok f) (hv : evaluate decisions e point = .ok v) :
    valueAt f point = v := by
  rw [evaluate_of_compile hf] at hv
  rw [valueAt, hv]

theorem addEntry_of_evaluate {g : Expr (Exact F)} {row : JacobianRow (Exact F)} {i : Nat}
    (hrow : compileRow decisions g = .ok row) (hs : decisions[i]? = some s) {d : F}
    (hd : evaluate decisions (g.diff s) point = .ok (finite d)) (w a : F) :
    addEntry point i (finite a) (row, finite w) = finite (a + w * d) :=
  addEntry_eq hrow hs (fun _ hf => valueAt_of_evaluate hf hd)
    (fun hmentions => pull_eq_zero hmentions hd) w a

/-- The induction is on the rows, with the sum so far as an accumulator. -/
theorem foldl_addEntry_of_evaluate {gs : List (Expr (Exact F))}
    {rows : List (JacobianRow (Exact F))} {i : Nat} (hs : decisions[i]? = some s)
    (hrows : List.Forall₂ (fun g row => compileRow decisions g = .ok row) gs rows) {ds : List F}
    (hds : List.Forall₂ (fun g d => evaluate decisions (g.diff s) point = .ok (finite d)) gs ds)
    (ws : List F) (a : F) :
    (rows.zip (ws.map finite)).foldl (addEntry point i) (finite a) =
      finite (a + (List.zipWith (· * ·) ws ds).sum) := by
  induction hrows generalizing ds ws a with
  | nil =>
    cases hds
    simp
  | @cons g row gs rows hrow _ ih =>
    cases hds with
    | @cons _ d _ ds hd hds =>
    cases ws with
    | nil => simp
    | cons w ws =>
      rw [List.map_cons, List.zip_cons_cons, List.foldl_cons, addEntry_of_evaluate hrow hs hd,
        ih hds, List.zipWith_cons_cons, List.sum_cons, add_assoc]

/-- At a point where all derivatives of a program along its variables are numbers, the gradient of
the Lagrangian is that of the objective plus the product of the weights with the Jacobian. -/
theorem lagrangianGradient_dense {p : Program (Exact F)} {m : Model (Exact F)}
    (hm : Model.compile p = .ok m) {slope : Fin p.decisions.length → F}
    {J : Fin p.constraints.length → Fin p.decisions.length → F}
    (hslope : ∀ i, evaluate p.decisions (p.objective.diff p.decisions[i]) point =
      .ok (finite (slope i)))
    (hJ : ∀ j i, evaluate p.decisions (p.constraints[j].diff p.decisions[i]) point =
      .ok (finite (J j i)))
    (w : Fin p.constraints.length → F) :
    m.lagrangianGradient point (List.ofFn fun j => finite (w j)) =
      List.ofFn fun i => finite (slope i + ∑ j, w j * J j i) := by
  have hc := Model.compiles_of_compile hm
  have hweights : (List.ofFn fun j => finite (w j)) = (List.ofFn w).map finite :=
    List.map_ofFn.symm
  refine List.ext_getElem? fun i => ?_
  rw [hweights, getElem?_lagrangianGradient _ _ (nodup_jacobian hc)]
  by_cases hi : i < p.decisions.length
  · have hs : p.decisions[i]? = some p.decisions[i] := List.getElem?_eq_getElem hi
    obtain ⟨d, hd, hcompile⟩ := exists_getElem?_of_forall₂ hc.gradient hs
    have hcolumn : List.Forall₂
        (fun g d => evaluate p.decisions (g.diff p.decisions[i]) point = .ok (finite d))
        p.constraints (List.ofFn fun j => J j ⟨i, hi⟩) := by
      rw [List.forall₂_iff_get]
      refine ⟨List.length_ofFn.symm, fun j hj _ => ?_⟩
      rw [List.get_ofFn]
      exact hJ ⟨j, hj⟩ ⟨i, hi⟩
    have hproduct : List.zipWith (· * ·) (List.ofFn w) (List.ofFn fun j => J j ⟨i, hi⟩) =
        List.ofFn fun j => w j * J j ⟨i, hi⟩ := by
      refine List.ext_getElem (by simp) fun j _ _ => ?_
      simp
    rw [hd, Option.map_some, valueAt_of_evaluate hcompile (hslope ⟨i, hi⟩),
      foldl_addEntry_of_evaluate hs hc.jacobian hcolumn, hproduct, List.sum_ofFn,
      List.getElem?_ofFn, dif_pos hi]
  · have hlength := hc.gradient.length_eq
    rw [List.getElem?_eq_none (by omega), List.getElem?_eq_none (by simp; omega)]
    rfl

/-- Two variables, each of which a constraint does not mention; the objective mentions the first
one. -/
def wedgeProgram : Program (Exact ℚ) :=
  let x : Expr (Exact ℚ) := .sym ⟨"x", 0⟩
  let y : Expr (Exact ℚ) := .sym ⟨"y", 1⟩
  ⟨[⟨"x", 0⟩, ⟨"y", 1⟩], .binary x .mul x, [x, .binary x .mul y, y]⟩

theorem lagrangianGradient_dense_wedge :
    ∃ m, Model.compile wedgeProgram = .ok m ∧
      m.lagrangianGradient [finite 2, finite 5] [finite 3, finite 0, finite 7] =
        [finite 7, finite 7] := by
  obtain ⟨m, hm⟩ : ∃ m, Model.compile wedgeProgram = .ok m := ⟨_, rfl⟩
  have hslope : ∀ i : Fin 2, evaluate wedgeProgram.decisions
      (wedgeProgram.objective.diff wedgeProgram.decisions[i]) [finite 2, finite 5] =
        .ok (finite ((![4, 0] : Fin 2 → ℚ) i)) := by decide +kernel
  have hJ : ∀ (j : Fin 3) (i : Fin 2), evaluate wedgeProgram.decisions
      (wedgeProgram.constraints[j].diff wedgeProgram.decisions[i]) [finite 2, finite 5] =
        .ok (finite ((![![1, 0], ![5, 2], ![0, 1]] : Fin 3 → Fin 2 → ℚ) j i)) := by decide +kernel
  have hdense := lagrangianGradient_dense hm hslope hJ (![3, 0, 7] : Fin 3 → ℚ)
  refine ⟨m, hm, hdense.trans ?_⟩
  decide +kernel

end Optima.Lagrangian
