import Mathlib.Data.List.Induction
import Mathlib.Data.List.Perm.Lattice
import Optima.Proofs.Expr.Evaluation
import Optima.Scalar.Double

/-!
The free symbols of an expression are what its evaluation can see.

* `Expr.Lists`: a list has the symbols that an expression depends on, each where it is first met from
  left to right; `lists_symbols`, `eq_symbols_of_lists`: `symbols` is the only such list.
* `Expr.collect`: the walk that keeps the symbols it has found, told apart by their ids;
  `collect_eraseDups`: what it has found after any expressions.
* `mem_positions_iff`: a compiled expression looks up the first positions of the free symbols, and
  `Compiled.eval_congr`: nothing else.
* `Expr.renamed`: an expression with other names for its symbols; `collect_renamed`,
  `ofExpr_renamed`: the ids alone decide.
* `symbols_are_seen`: all of this for any expression.
-/

namespace Optima

variable {α : Type}

/-! ## The list of free symbols -/

theorem eraseDups_concat (l : List Symbol) (s : Symbol) :
    (l ++ [s]).eraseDups = if s ∈ l then l.eraseDups else l.eraseDups ++ [s] := by
  rw [List.eraseDups_append]
  split
  · next hs =>
    have hnone : [s].removeAll l = [] := by simp [List.removeAll, hs]
    rw [hnone, List.eraseDups_nil, List.append_nil]
  · next hs =>
    have hnew : [s].removeAll l = [s] := by simp [List.removeAll, hs]
    rw [hnew, List.eraseDups_cons, List.filter_nil, List.eraseDups_nil]

/-- What is left of a list without its repetitions is in the order of the first occurrences. -/
theorem pairwise_idxOf_eraseDups (l : List Symbol) :
    l.eraseDups.Pairwise fun s t => l.idxOf s < l.idxOf t := by
  -- From the right: a symbol at the end leaves the first places of the others as they are.
  induction l using List.reverseRecOn with
  | nil => exact List.Pairwise.nil
  | append_singleton l s ih =>
    have hkeep (u : Symbol) (hu : u ∈ l.eraseDups) : (l ++ [s]).idxOf u = l.idxOf u :=
      List.idxOf_append_of_mem (List.mem_eraseDups.1 hu)
    have hold : l.eraseDups.Pairwise fun u v => (l ++ [s]).idxOf u < (l ++ [s]).idxOf v := by
      apply ih.imp_of_mem
      intro u v hu hv huv
      rwa [hkeep u hu, hkeep v hv]
    rw [eraseDups_concat]
    split
    · exact hold
    · next hs =>
      refine List.pairwise_append.2 ⟨hold, List.pairwise_singleton _ _, ?_⟩
      intro u hu v hv
      obtain rfl := List.mem_singleton.1 hv
      rw [hkeep u hu, List.idxOf_append_of_notMem hs]
      exact Nat.lt_add_right _ (List.idxOf_lt_length_iff.2 (List.mem_eraseDups.1 hu))

namespace Expr

/-- The symbols that the expression depends on, each once, in the order in which they are first met
from left to right. -/
structure Lists (e : Expr α) (ss : List Symbol) : Prop where
  nodup : ss.Nodup
  mem_iff : ∀ s, s ∈ ss ↔ e.dependsOn s = true
  inOrder : ss.Pairwise fun s t => e.occurrences.idxOf s < e.occurrences.idxOf t

theorem lists_symbols (e : Expr α) : e.Lists e.symbols where
  nodup := (pairwise_idxOf_eraseDups e.occurrences).imp fun hlt he =>
    Nat.ne_of_lt hlt (congrArg e.occurrences.idxOf he)
  mem_iff _ := mem_symbols.trans dependsOn_iff.symm
  inOrder := pairwise_idxOf_eraseDups e.occurrences

theorem eq_symbols_of_lists {e : Expr α} {ss : List Symbol} (h : e.Lists ss) : ss = e.symbols := by
  have hsymbols := lists_symbols e
  have hperm : ss.Perm e.symbols := by
    rw [List.perm_ext_iff_of_nodup h.nodup hsymbols.nodup]
    intro s
    rw [h.mem_iff, hsymbols.mem_iff]
  refine hperm.eq_of_pairwise ?_ h.inOrder hsymbols.inOrder
  intro s t _ _ hst hts
  exact absurd hts (Nat.lt_asymm hst)

/-! ## Symbols by their ids -/

/-- One walk from left to right: a symbol is added to those that were found before, unless one of
them has its id. -/
def collect (found : List Symbol) : Expr α → List Symbol
  | const _ => found
  | sym s => if s.id ∈ found.map Symbol.id then found else found ++ [s]
  | unary _ a => a.collect found
  | binary l _ r => r.collect (l.collect found)

end Expr

/-- Different symbols of the list have different ids. -/
def ToldApart (ss : List Symbol) : Prop := ∀ s ∈ ss, ∀ t ∈ ss, s.id = t.id → s = t

instance (ss : List Symbol) : Decidable (ToldApart ss) :=
  inferInstanceAs (Decidable (∀ s ∈ ss, ∀ t ∈ ss, s.id = t.id → s = t))

theorem ToldApart.mem_map_id_iff {ss found : List Symbol} (h : ToldApart ss) (hfound : found ⊆ ss)
    {s : Symbol} (hs : s ∈ ss) : s.id ∈ found.map Symbol.id ↔ s ∈ found := by
  constructor
  · intro hid
    obtain ⟨t, ht, hts⟩ := List.mem_map.1 hid
    rwa [← h t (hfound ht) s hs hts]
  · exact List.mem_map_of_mem

theorem ToldApart.idxOf?_id {ss inputs : List Symbol} (h : ToldApart ss) (hinputs : inputs ⊆ ss)
    {s : Symbol} (hs : s ∈ ss) : (inputs.map Symbol.id).idxOf? s.id = inputs.idxOf? s := by
  apply idxOf?_map_id
  intro t ht hid
  exact h t (hinputs ht) s hs hid

namespace Expr

/-- After other expressions with the symbols `before`, the walk adds those that are new. -/
theorem collect_eraseDups {ss : List Symbol} (h : ToldApart ss) {e : Expr α} {before : List Symbol}
    (hbefore : before ⊆ ss) (he : e.occurrences ⊆ ss) :
    e.collect before.eraseDups = (before ++ e.occurrences).eraseDups := by
  induction e generalizing before with
  | const v => rw [collect, occurrences, List.append_nil]
  | sym s =>
    have hs : s ∈ ss := he List.mem_cons_self
    have hfound : before.eraseDups ⊆ ss := fun t ht => hbefore (List.mem_eraseDups.1 ht)
    simp only [collect, occurrences, h.mem_map_id_iff hfound hs, List.mem_eraseDups,
      eraseDups_concat]
  | unary op a ih => exact ih hbefore he
  | binary l op r ihl ihr =>
    -- The right operand is walked with all that was found in front of it and in the left one.
    obtain ⟨hl, hr⟩ := List.append_subset.1 he
    rw [collect, ihl hbefore hl, ihr (List.append_subset.2 ⟨hbefore, hl⟩) hr, occurrences,
      List.append_assoc]

theorem collect_nil {ss : List Symbol} (h : ToldApart ss) {e : Expr α} (he : e.occurrences ⊆ ss) :
    e.collect [] = e.symbols :=
  collect_eraseDups h (List.nil_subset ss) he

end Expr

/-! ## What a compiled expression reads -/

/-- The position is the first one where the symbol is among the inputs. -/
def FirstAt (inputs : List Symbol) (s : Symbol) (i : Nat) : Prop :=
  inputs[i]? = some s ∧ ∀ j < i, inputs[j]? ≠ some s

theorem firstAt_iff {inputs : List Symbol} {s : Symbol} {i : Nat} :
    FirstAt inputs s i ↔ inputs.idxOf? s = some i := by
  rw [FirstAt, List.idxOf?_eq_some_iff, List.getElem?_eq_some_iff]
  constructor
  · rintro ⟨⟨hlt, hat⟩, hfirst⟩
    refine ⟨hlt, hat, ?_⟩
    intro j hj hjs
    exact hfirst j hj (List.getElem?_eq_some_iff.2 ⟨Nat.lt_trans hj hlt, hjs⟩)
  · rintro ⟨hlt, hat, hfirst⟩
    refine ⟨⟨hlt, hat⟩, ?_⟩
    intro j hj hjs
    exact hfirst j hj (List.getElem?_eq_some_iff.1 hjs).2

theorem positions_of_ofExpr {inputs : List Symbol} {e : Expr α} {c : Compiled α}
    (h : Compiled.ofExpr inputs e = .ok c) :
    c.positions.map some = e.occurrences.map fun s => inputs.idxOf? s := by
  induction e generalizing c with
  | const v =>
    cases h
    rfl
  | sym s =>
    rw [Compiled.ofExpr] at h
    split at h
    · next i hi =>
      cases h
      exact congrArg List.singleton hi.symm
    · cases h
  | unary op a ih =>
    obtain ⟨c', ha, ⟨⟩⟩ := bind_eq_ok.1 h
    rw [Compiled.positions, Expr.occurrences, ih ha]
  | binary l op r ihl ihr =>
    obtain ⟨cl, hl, h₁⟩ := bind_eq_ok.1 h
    obtain ⟨cr, hr, ⟨⟩⟩ := bind_eq_ok.1 h₁
    rw [Compiled.positions, Expr.occurrences, List.map_append, List.map_append, ihl hl, ihr hr]

theorem mem_positions_iff {inputs : List Symbol} {e : Expr α} {c : Compiled α}
    (h : Compiled.ofExpr inputs e = .ok c) {i : Nat} :
    i ∈ c.positions ↔ ∃ s ∈ e.symbols, FirstAt inputs s i := by
  have hsome : i ∈ c.positions ↔ some i ∈ c.positions.map some := by simp
  rw [hsome, positions_of_ofExpr h, List.mem_map]
  simp only [Expr.mem_symbols, firstAt_iff]

/-- An evaluation reads the values at its positions only. -/
theorem Compiled.eval_congr [Scalar α] {c : Compiled α} {values values' : List α}
    (h : ∀ i ∈ c.positions, values[i]? = values'[i]?) : c.eval values = c.eval values' := by
  induction c with
  | const v => rfl
  | input i => rw [eval, eval, List.getD, List.getD, h i List.mem_cons_self]
  | unary op a ih => rw [eval, eval, ih h]
  | binary l op r ihl ihr =>
    rw [eval, eval, ihl fun i hi => h i (List.mem_append_left _ hi),
      ihr fun i hi => h i (List.mem_append_right _ hi)]

/-! ## Other names -/

/-- The symbol under another name. -/
def Symbol.renamed (name : Symbol → String) (s : Symbol) : Symbol := ⟨name s, s.id⟩

theorem map_id_renamed (name : Symbol → String) (ss : List Symbol) :
    (ss.map (Symbol.renamed name)).map Symbol.id = ss.map Symbol.id := by
  rw [List.map_map]
  rfl

namespace Expr

/-- The expression with other names for its symbols, which need not be different ones. -/
def renamed (name : Symbol → String) : Expr α → Expr α
  | const v => const v
  | sym s => sym (s.renamed name)
  | unary op a => unary op (a.renamed name)
  | binary l op r => binary (l.renamed name) op (r.renamed name)

variable (name : Symbol → String)

theorem occurrences_renamed (e : Expr α) :
    (e.renamed name).occurrences = e.occurrences.map (Symbol.renamed name) := by
  induction e with
  | const v => rfl
  | sym s => rfl
  | unary op a ih => exact ih
  | binary l op r ihl ihr => rw [renamed, occurrences, occurrences, List.map_append, ihl, ihr]

theorem collect_renamed (e : Expr α) (found : List Symbol) :
    (e.renamed name).collect (found.map (Symbol.renamed name)) =
      (e.collect found).map (Symbol.renamed name) := by
  induction e generalizing found with
  | const v => rfl
  | sym s =>
    have hid : (s.renamed name).id = s.id := rfl
    rw [renamed, collect, collect, map_id_renamed, hid]
    split
    · rfl
    · rw [List.map_append, List.map_singleton]
  | unary op a ih => exact ih found
  | binary l op r ihl ihr => rw [renamed, collect, collect, ihl, ihr]

end Expr

section

variable {ss : List Symbol} (h : ToldApart ss) (name : Symbol → String)
include h

theorem ToldApart.renamed : ToldApart (ss.map (Symbol.renamed name)) := by
  rintro _ hs _ ht hid
  obtain ⟨s, hs', rfl⟩ := List.mem_map.1 hs
  obtain ⟨t, ht', rfl⟩ := List.mem_map.1 ht
  rw [h s hs' t ht' hid]

theorem symbols_renamed {e : Expr α} (he : e.occurrences ⊆ ss) :
    (e.renamed name).symbols = e.symbols.map (Symbol.renamed name) := by
  have hrenamed : (e.renamed name).occurrences ⊆ ss.map (Symbol.renamed name) := by
    rw [Expr.occurrences_renamed]
    exact List.map_subset _ he
  rw [← Expr.collect_nil (h.renamed name) hrenamed, ← Expr.collect_nil h he]
  exact Expr.collect_renamed name e []

theorem dependsOn_renamed {e : Expr α} (he : e.occurrences ⊆ ss) {s : Symbol} (hs : s ∈ ss) :
    (e.renamed name).dependsOn (s.renamed name) = e.dependsOn s := by
  rw [Bool.eq_iff_iff, Expr.dependsOn_iff, Expr.dependsOn_iff, Expr.occurrences_renamed,
    List.mem_map]
  constructor
  · rintro ⟨t, ht, hts⟩
    have hid := congrArg Symbol.id hts
    rwa [← h t (he ht) s hs hid]
  · intro hmem
    exact ⟨s, hmem, rfl⟩

theorem idxOf?_renamed {inputs : List Symbol} (hinputs : inputs ⊆ ss) {s : Symbol} (hs : s ∈ ss) :
    (inputs.map (Symbol.renamed name)).idxOf? (s.renamed name) = inputs.idxOf? s :=
  calc (inputs.map (Symbol.renamed name)).idxOf? (s.renamed name)
      = ((inputs.map (Symbol.renamed name)).map Symbol.id).idxOf? (s.renamed name).id :=
        ((h.renamed name).idxOf?_id (List.map_subset _ hinputs) (List.mem_map_of_mem hs)).symm
    _ = (inputs.map Symbol.id).idxOf? s.id := by rw [map_id_renamed]; rfl
    _ = inputs.idxOf? s := h.idxOf?_id hinputs hs

/-- The same positions are found, or none for the same symbol. -/
theorem ofExpr_renamed {inputs : List Symbol} (hinputs : inputs ⊆ ss) {e : Expr α}
    (he : e.occurrences ⊆ ss) {c : Compiled α} :
    Compiled.ofExpr (inputs.map (Symbol.renamed name)) (e.renamed name) = .ok c ↔
      Compiled.ofExpr inputs e = .ok c := by
  induction e generalizing c with
  | const v => exact Iff.rfl
  | sym s =>
    rw [Expr.renamed, Compiled.ofExpr, Compiled.ofExpr,
      idxOf?_renamed h name hinputs (he List.mem_cons_self)]
    cases inputs.idxOf? s <;> simp
  | unary op a ih =>
    simp only [Expr.renamed, Compiled.ofExpr, bind_eq_ok, ih he]
  | binary l op r ihl ihr =>
    obtain ⟨hl, hr⟩ := List.append_subset.1 he
    simp only [Expr.renamed, Compiled.ofExpr, bind_eq_ok, ihl hl, ihr hr]

end

/-! ## What can be seen -/

/-- The function looks up the first positions that the symbols have among the inputs, and no others;
so lists of values that agree there have the same value. -/
structure Function.Sees [Scalar α] (f : Function α) (inputs ss : List Symbol) : Prop where
  positions : ∀ i, i ∈ f.body.positions ↔ ∃ s ∈ ss, FirstAt inputs s i
  same_value : ∀ values values' : List α, values.length = f.arity → values'.length = f.arity →
    (∀ s ∈ ss, ∀ i, FirstAt inputs s i → values[i]? = values'[i]?) →
      ∃ v, f.call values = .ok v ∧ f.call values' = .ok v

/-- Among these symbols the names play no part: they may be exchanged at will, also for one name that
all symbols share, and everything that is found stays the same. -/
structure Expr.IgnoresNames (e : Expr α) (ss : List Symbol) : Prop where
  symbols : ∀ name, (e.renamed name).symbols = e.symbols.map (Symbol.renamed name)
  dependsOn : ∀ name, ∀ s ∈ ss, (e.renamed name).dependsOn (s.renamed name) = e.dependsOn s
  compile : ∀ name, ∀ inputs ⊆ ss, ∀ body,
    Function.compile (inputs.map (Symbol.renamed name)) (e.renamed name) =
        .ok ⟨inputs.map (Symbol.renamed name), body⟩ ↔
      Function.compile inputs e = .ok ⟨inputs, body⟩

theorem sees_of_compile [Scalar α] {inputs : List Symbol} {e : Expr α} {f : Function α}
    (h : Function.compile inputs e = .ok f) : f.Sees inputs e.symbols := by
  obtain ⟨-, hbody⟩ := compile_eq_ok.1 h
  have hpositions (i : Nat) : i ∈ f.body.positions ↔ ∃ s ∈ e.symbols, FirstAt inputs s i :=
    mem_positions_iff hbody
  refine ⟨hpositions, ?_⟩
  intro values values' hlength hlength' hagree
  have hsame : f.body.eval values = f.body.eval values' := by
    apply Compiled.eval_congr
    intro i hi
    obtain ⟨s, hs, hfirst⟩ := (hpositions i).1 hi
    exact hagree s hs i hfirst
  exact ⟨f.body.eval values, Function.call_eq_ok_iff.2 ⟨hlength, rfl⟩,
    Function.call_eq_ok_iff.2 ⟨hlength', hsame.symm⟩⟩

theorem ToldApart.nodup_map_id {ss : List Symbol} (h : ToldApart ss) {e : Expr α}
    (he : e.occurrences ⊆ ss) : (e.symbols.map Symbol.id).Nodup := by
  apply e.lists_symbols.nodup.map_on
  intro s hs t ht hid
  exact h s (he (Expr.mem_symbols.1 hs)) t (he (Expr.mem_symbols.1 ht)) hid

theorem ignoresNames {ss : List Symbol} (h : ToldApart ss) {e : Expr α} (he : e.occurrences ⊆ ss) :
    e.IgnoresNames ss where
  symbols name := symbols_renamed h name he
  dependsOn name _ hs := dependsOn_renamed h name he hs
  compile name inputs hinputs body := by
    simp only [compile_eq_ok, true_and]
    exact ofExpr_renamed h name hinputs he

/-- The free symbols of an expression are what can be seen of it: they are those it depends on, in the
order of their first occurrence; it can be compiled if and only if they all are inputs; and what is
compiled looks up their values and no others. Symbols are told apart by their ids, so one that no
symbol of the expression has the id of is not found in it, and one that no input has the id of is not
bound, whatever their names are. -/
theorem symbols_are_seen [Scalar α] (e : Expr α) :
    (e.Lists e.symbols ∧ ∀ ss, e.Lists ss → ss = e.symbols) ∧
    (∀ inputs, (∃ f, Function.compile inputs e = .ok f) ↔ ∀ s ∈ e.symbols, s ∈ inputs) ∧
    (∀ inputs f, Function.compile inputs e = .ok f → f.Sees inputs e.symbols) ∧
    (∀ s : Symbol, (∀ t ∈ e.symbols, t.id ≠ s.id) → e.dependsOn s = false) ∧
    (∀ inputs, ∀ s ∈ e.symbols, (∀ t ∈ inputs, t.id ≠ s.id) →
      ∀ f, Function.compile inputs e ≠ .ok f) ∧
    ∀ ss, ToldApart ss → e.occurrences ⊆ ss →
      e.collect [] = e.symbols ∧ (e.symbols.map Symbol.id).Nodup ∧ e.IgnoresNames ss := by
  have hcompile (inputs : List Symbol) :
      (∃ f, Function.compile inputs e = .ok f) ↔ ∀ s ∈ e.symbols, s ∈ inputs := by
    rw [exists_compile_iff, List.subset_def]
    simp only [Expr.mem_symbols]
  refine ⟨⟨e.lists_symbols, fun _ => Expr.eq_symbols_of_lists⟩, hcompile,
    fun _ _ => sees_of_compile, ?_, ?_, ?_⟩
  · intro s habsent
    rw [← Bool.not_eq_true, ← e.lists_symbols.mem_iff]
    intro hmem
    exact habsent s hmem rfl
  · intro inputs s hs habsent f hf
    exact habsent s ((hcompile inputs).1 ⟨f, hf⟩ s hs) rfl
  · intro ss h he
    exact ⟨Expr.collect_nil h he, h.nodup_map_id he, ignoresNames h he⟩

/-- An expression in one of two symbols that are both called x. -/
def twin : Expr Float :=
  .binary (.sym ⟨"x", 0⟩) .add (.binary (.sym ⟨"y", 2⟩) .mul (.sym ⟨"x", 0⟩))

/-- The first input has the name of the third and makes no difference; nor has the repeated one. -/
theorem symbols_are_seen_twin :
    twin.Lists [⟨"x", 0⟩, ⟨"y", 2⟩] ∧ twin.dependsOn ⟨"x", 1⟩ = false ∧
      (∀ f, Function.compile [⟨"x", 1⟩, ⟨"y", 2⟩] twin ≠ .ok f) ∧
      (∃ f, Function.compile [⟨"x", 1⟩, ⟨"y", 2⟩, ⟨"x", 0⟩, ⟨"y", 2⟩] twin = .ok f ∧
        ∃ v, f.call [1, 2, 3, 4] = .ok v ∧ f.call [5, 2, 3, 6] = .ok v) ∧
      (twin.renamed fun _ => "z").symbols = [⟨"z", 0⟩, ⟨"z", 2⟩] := by
  obtain ⟨⟨hlists, -⟩, hcompile, hsees, habsent, hunbound, hids⟩ := symbols_are_seen twin
  have hsymbols : twin.symbols = [⟨"x", 0⟩, ⟨"y", 2⟩] := by decide
  obtain ⟨f, hf⟩ := (hcompile [⟨"x", 1⟩, ⟨"y", 2⟩, ⟨"x", 0⟩, ⟨"y", 2⟩]).2 (by decide)
  have harity : f.arity = 4 := by rw [Function.arity, (compile_eq_ok.1 hf).1]; rfl
  have hagree : ∀ s ∈ twin.symbols, ∀ i,
      FirstAt [⟨"x", 1⟩, ⟨"y", 2⟩, ⟨"x", 0⟩, ⟨"y", 2⟩] s i →
        ([1, 2, 3, 4] : List Float)[i]? = [5, 2, 3, 6][i]? := by
    rw [hsymbols]
    refine List.forall_mem_cons.2 ⟨?_, List.forall_mem_singleton.2 ?_⟩
    · intro i hi
      obtain rfl : 2 = i := Option.some.inj (firstAt_iff.1 hi)
      simp only [List.getElem?_cons_succ, List.getElem?_cons_zero]
    · intro i hi
      obtain rfl : 1 = i := Option.some.inj (firstAt_iff.1 hi)
      simp only [List.getElem?_cons_succ, List.getElem?_cons_zero]
  obtain ⟨v, hv, hv'⟩ := (hsees _ f hf).same_value [1, 2, 3, 4] [5, 2, 3, 6] harity.symm
    harity.symm hagree
  obtain ⟨-, -, hnames⟩ := hids twin.occurrences (by decide) (List.Subset.refl _)
  refine ⟨hsymbols ▸ hlists, habsent _ (by decide), ?_, ⟨f, hf, v, hv, hv'⟩, ?_⟩
  · exact hunbound [⟨"x", 1⟩, ⟨"y", 2⟩] ⟨"x", 0⟩ (by decide) (by decide)
  · rw [hnames.symbols, hsymbols]
    rfl

end Optima
