import Optima.Lagrangian.Model
import Optima.Proofs.Expr.Compiled

/-!
What a compiled program consists of, and the entries of the gradient of its Lagrangian.

* `Model.Compiles`: the parts of a model are compiled from those of a program.
* `lookup_compileRow`: a row of the Jacobian has one entry for each variable that its constraint
  mentions.
* `getElem?_lagrangianGradient`: an entry of the gradient is a sum over the rows.
-/

namespace Optima.Lagrangian

variable {α : Type} [Scalar α]

/-- Every part of the model is compiled from the part of the program that it stands for. -/
structure Model.Compiles (p : Program α) (m : Model α) : Prop where
  size_eq : m.size = p.decisions.length
  objective : Function.compile p.decisions p.objective = .ok m.objective
  gradient : List.Forall₂
    (fun s d => Function.compile p.decisions (p.objective.diff s) = .ok d) p.decisions m.gradient
  constraints : List.Forall₂
    (fun g c => Function.compile p.decisions g = .ok c) p.constraints m.constraints
  jacobian : List.Forall₂
    (fun g row => compileRow p.decisions g = .ok row) p.constraints m.jacobian

theorem Model.compiles_of_compile {p : Program α} {m : Model α} (h : Model.compile p = .ok m) :
    m.Compiles p := by
  obtain ⟨objective, ho, h₁⟩ := bind_eq_ok.1 h
  obtain ⟨gradient, hg, h₂⟩ := bind_eq_ok.1 h₁
  obtain ⟨constraints, hc, h₃⟩ := bind_eq_ok.1 h₂
  obtain ⟨jacobian, hj, ⟨⟩⟩ := bind_eq_ok.1 h₃
  exact ⟨rfl, ho, List.forall₂_map_left_iff.1 (forall₂_of_mapM hg), forall₂_of_mapM hc,
    forall₂_of_mapM hj⟩

theorem exists_getElem?_of_forall₂ {β γ : Type} {R : β → γ → Prop} {bs : List β} {cs : List γ}
    (h : List.Forall₂ R bs cs) {i : Nat} {b : β} (hb : bs[i]? = some b) :
    ∃ c, cs[i]? = some c ∧ R b c := by
  induction h generalizing i with
  | nil => cases hb
  | @cons b' c bs cs hr _ ih =>
    cases i with
    | zero =>
      cases hb
      exact ⟨c, rfl, hr⟩
    | succ i => exact ih hb

theorem evaluate_eq_valueAt {decisions : List Symbol} {e : Expr α} {f : Function α}
    (hf : Function.compile decisions e = .ok f) {point : List α}
    (hp : point.length = decisions.length) :
    evaluate decisions e point = .ok (valueAt f point) := by
  rw [evaluate_of_compile hf, valueAt, call_of_compile hf hp]

theorem evaluate_constraintValues {p : Program α} {m : Model α} (h : m.Compiles p)
    {point : List α} (hp : point.length = p.decisions.length) :
    List.Forall₂ (fun g c => evaluate p.decisions g point = .ok c) p.constraints
      (m.constraintValues point) :=
  List.forall₂_map_right_iff.2 (h.constraints.imp fun _ _ hc => evaluate_eq_valueAt hc hp)

/-! ## Rows of the Jacobian -/

theorem nodup_map_snd_zipIdx_filter (ds : List Symbol) (keep : Symbol × Nat → Bool) :
    ((ds.zipIdx.filter keep).map Prod.snd).Nodup := by
  have h : (ds.zipIdx.map Prod.snd).Nodup := by
    rw [List.zipIdx_map_snd]
    exact List.nodup_range'
  exact h.sublist (List.filter_sublist.map _)

/-- One entry of a row belongs to the variable and its position. -/
def RowEntry (decisions : List Symbol) (g : Expr α) (v : Symbol × Nat) (entry : Nat × Function α) :
    Prop :=
  entry.1 = v.2 ∧ Function.compile decisions (g.diff v.1) = .ok entry.2

theorem forall₂_rowEntry {decisions : List Symbol} {g : Expr α} {row : JacobianRow α}
    (h : compileRow decisions g = .ok row) :
    List.Forall₂ (RowEntry decisions g) (decisions.zipIdx.filter fun v => g.dependsOn v.1) row := by
  refine (forall₂_of_mapM h).imp fun v entry he => ?_
  obtain ⟨d, hd, ⟨⟩⟩ := bind_eq_ok.1 he
  exact ⟨rfl, hd⟩

theorem map_fst_of_forall₂ {decisions : List Symbol} {g : Expr α} {vs : List (Symbol × Nat)}
    {row : JacobianRow α} (h : List.Forall₂ (RowEntry decisions g) vs row) :
    row.map Prod.fst = vs.map Prod.snd := by
  induction h with
  | nil => rfl
  | cons he _ ih => rw [List.map_cons, List.map_cons, ih, he.1]

theorem nodup_compileRow {decisions : List Symbol} {g : Expr α} {row : JacobianRow α}
    (h : compileRow decisions g = .ok row) : (row.map Prod.fst).Nodup := by
  rw [map_fst_of_forall₂ (forall₂_rowEntry h)]
  exact nodup_map_snd_zipIdx_filter decisions _

theorem nodup_jacobian {p : Program α} {m : Model α} (h : m.Compiles p) :
    ∀ row ∈ m.jacobian, (row.map Prod.fst).Nodup := by
  intro row hrow
  obtain ⟨j, hj⟩ := List.mem_iff_getElem?.1 hrow
  obtain ⟨g, -, hg⟩ := exists_getElem?_of_forall₂ h.jacobian.flip hj
  exact nodup_compileRow hg

theorem lookup_eq_none_of_not_mem {β : Type} {i : Nat} {row : List (Nat × β)}
    (h : i ∉ row.map Prod.fst) : row.lookup i = none := by
  rw [List.lookup_eq_none_iff]
  intro entry he
  rw [bne_iff_ne]
  rintro rfl
  exact h (List.mem_map_of_mem he)

theorem lookup_of_forall₂ {decisions : List Symbol} {g : Expr α} {vs : List (Symbol × Nat)}
    {row : JacobianRow α} (h : List.Forall₂ (RowEntry decisions g) vs row)
    (hd : (vs.map Prod.snd).Nodup) {s : Symbol} {i : Nat} (hv : (s, i) ∈ vs) :
    ∃ d, row.lookup i = some d ∧ Function.compile decisions (g.diff s) = .ok d := by
  induction h with
  | nil => cases hv
  | @cons v entry vs row he _ ih =>
    obtain ⟨k, d⟩ := entry
    obtain ⟨rfl, hc⟩ := he
    rw [List.map_cons, List.nodup_cons] at hd
    rcases List.mem_cons.1 hv with rfl | hv
    · exact ⟨d, by simp, hc⟩
    · have hne : i ≠ v.2 := fun hi => hd.1 (hi ▸ List.mem_map_of_mem (f := Prod.snd) hv)
      obtain ⟨d', hl, hc'⟩ := ih hd.2 hv
      exact ⟨d', by simp [List.lookup_cons, beq_eq_false_iff_ne.2 hne, hl], hc'⟩

/-- The entry of a row for a variable: its derivative if the constraint mentions it, else none. -/
theorem lookup_compileRow {decisions : List Symbol} {g : Expr α} {row : JacobianRow α}
    (h : compileRow decisions g = .ok row) {s : Symbol} {i : Nat} (hs : decisions[i]? = some s) :
    if g.dependsOn s then
      ∃ d, row.lookup i = some d ∧ Function.compile decisions (g.diff s) = .ok d
    else row.lookup i = none := by
  have hrow := forall₂_rowEntry h
  split
  · next hdep =>
    refine lookup_of_forall₂ hrow (nodup_map_snd_zipIdx_filter decisions _) ?_
    rw [List.mem_filter]
    exact ⟨List.mem_zipIdx_iff_getElem?.2 hs, hdep⟩
  · next hdep =>
    refine lookup_eq_none_of_not_mem ?_
    rw [map_fst_of_forall₂ hrow, List.mem_map]
    rintro ⟨⟨t, k⟩, ht, rfl⟩
    rw [List.mem_filter] at ht
    have hk := List.mem_zipIdx_iff_getElem?.1 ht.1
    rw [hs] at hk
    cases hk
    exact hdep ht.2

/-! ## Entries of the gradient -/

/-- Adds what one row with a weight gives to the entry of variable `i`. -/
def addEntry (point : List α) (i : Nat) (sum : α) (rowWeight : JacobianRow α × α) : α :=
  if rowWeight.2 == 0 then sum
  else
    match rowWeight.1.lookup i with
    | some d => sum + rowWeight.2 * valueAt d point
    | none => sum

theorem getElem?_addRow {point : List α} {weight : α} {gradient : List α} {row : JacobianRow α}
    (hd : (row.map Prod.fst).Nodup) (i : Nat) :
    (Model.addRow point weight gradient row)[i]? =
      gradient[i]?.map fun a =>
        match row.lookup i with
        | some d => a + weight * valueAt d point
        | none => a := by
  induction row generalizing gradient with
  | nil => simp [Model.addRow]
  | cons entry row ih =>
    obtain ⟨k, d⟩ := entry
    rw [List.map_cons, List.nodup_cons] at hd
    have hcons : Model.addRow point weight gradient ((k, d) :: row) =
        Model.addRow point weight (gradient.modify k (· + weight * valueAt d point)) row := rfl
    rw [hcons, ih hd.2, List.getElem?_modify, List.lookup_cons]
    by_cases hk : k = i
    · subst hk
      simp [lookup_eq_none_of_not_mem hd.1, Function.comp_def]
    · simp [hk, beq_eq_false_iff_ne.2 (Ne.symm hk)]

/-- Adds the row with its weight to a gradient, unless the weight is zero. -/
def addWeighted (point gradient : List α) (rowWeight : JacobianRow α × α) : List α :=
  if rowWeight.2 == 0 then gradient else Model.addRow point rowWeight.2 gradient rowWeight.1

theorem lagrangianGradient_eq (m : Model α) (point weights : List α) :
    m.lagrangianGradient point weights =
      (m.jacobian.zip weights).foldl (addWeighted point)
        (m.gradient.map fun d => valueAt d point) :=
  rfl

theorem getElem?_foldl_addWeighted {point : List α} (pairs : List (JacobianRow α × α))
    {gradient : List α} (hd : ∀ pair ∈ pairs, (pair.1.map Prod.fst).Nodup) (i : Nat) :
    (pairs.foldl (addWeighted point) gradient)[i]? =
      gradient[i]?.map fun a => pairs.foldl (addEntry point i) a := by
  induction pairs generalizing gradient with
  | nil => simp
  | cons pair pairs ih =>
    rw [List.forall_mem_cons] at hd
    rw [List.foldl_cons, ih hd.2, addWeighted]
    split
    · next hw => simp [addEntry, hw]
    · next hw =>
      rw [getElem?_addRow hd.1, Option.map_map]
      simp [addEntry, hw, Function.comp_def]

theorem getElem?_lagrangianGradient {m : Model α} (point weights : List α)
    (hd : ∀ row ∈ m.jacobian, (row.map Prod.fst).Nodup) (i : Nat) :
    (m.lagrangianGradient point weights)[i]? =
      m.gradient[i]?.map fun d =>
        (m.jacobian.zip weights).foldl (addEntry point i) (valueAt d point) := by
  rw [lagrangianGradient_eq,
    getElem?_foldl_addWeighted _ (fun pair hp => hd _ (List.of_mem_zip hp).1),
    List.getElem?_map, Option.map_map]
  rfl

end Optima.Lagrangian
