import Optima.Expr.Printer
import Optima.Proofs.Expr.Folded
import Optima.Proofs.Formula.Acceptance
import Optima.Proofs.Formula.Nesting
import Optima.Proofs.Formula.Spelling
import Optima.Scalar.Double

/-!
Printed expressions read back.

* `prints`: the printed text of a folded expression spells it, as the phrase that its outermost
  operation makes, and nests as deep as the expression does.
* `parse_print`: reading the text in a scope of its symbols gives the same tree, unless it nests too
  deep.
-/

namespace Optima

namespace Formula

variable {α : Type} [Scalar α] [Printable α]

/-! ## Constants and symbols that read back -/

/-- The digits that the scalar is written with read back as the scalar, with its sign in front. -/
def ReadsBack (v : α) : Prop :=
  ∃ negative d r, Printable.shortest false v = .finite negative d ∧
    Decimal.read? d.positional = some r ∧ (if negative then -r.toScalar else r.toScalar) = v

/-- Written with a sign and not below zero: among the doubles this is negative zero. -/
def MinusZero (v : α) : Prop := ¬ v < 0 ∧ ∃ d, Printable.shortest false v = .finite true d

/-- The name is scanned as one token, and that is a name. -/
def IsName (name : String) : Prop := ∃ span, scan name = [⟨.ident, span, name⟩]

/-- The scope knows the symbol by its name. -/
def Named (scope : Scope) (s : Symbol) : Prop := scope.find? s.name = some s ∧ IsName s.name

theorem isWord_of_isName {name : String} (h : IsName name) : IsWord name.toList := by
  obtain ⟨span, h⟩ := h
  have hmem : ⟨.ident, span, name⟩ ∈ scan name := by simp [h]
  exact isWord_of_mem_scanFrom 0 name.toList _ hmem rfl

theorem isName_of_isWord {name : String} (h : IsWord name.toList) : IsName name := by
  have hs := @scanFrom_name _ [] h (by simp) 0
  rw [List.append_nil, scanFrom, String.ofList_toList] at hs
  exact ⟨_, hs⟩

theorem isWord_name? {op : UnaryOp} {name : String} (h : op.name? = some name) :
    IsWord name.toList := by
  cases op <;> cases h <;>
    exact ⟨_, _, rfl, by decide, by decide, List.all_eq_true.1 (by decide)⟩

/-! ## The phrase of a printed expression -/

/-- How tightly a phrase binds, on the scale of precedences. -/
def Operand.rank : Operand → Nat
  | .sum => 1
  | .product => 2
  | .signed => 3
  | .power => 4
  | .atom => 5

/-- The phrase that the printed text of an expression is. -/
def spot : Expr α → Operand
  | .const v =>
    match Printable.shortest false v with
    | .finite true _ => .signed
    | _ => .atom
  | .sym _ => .atom
  | .unary op _ => if op = .neg then .signed else .atom
  | .binary _ op _ =>
    match op with
    | .add | .sub => .sum
    | .mul | .div => .product
    | .pow => .power

omit [Scalar α] in
theorem spot_const (v : α) :
    spot (.const v) = .atom ∨ spot (.const v) = .signed ∧ ∃ d, Printable.shortest false v =
      .finite true d := by
  rw [spot]
  split
  · next d hd => exact .inr ⟨rfl, d, hd⟩
  · exact .inl rfl

theorem min_precedence_le_rank (e : Expr α) : min e.precedence 3 ≤ (spot e).rank := by
  have htight {o : Operand} (h : 3 ≤ o.rank) (n : Nat) : min n 3 ≤ o.rank :=
    Nat.le_trans (Nat.min_le_right n 3) h
  cases e with
  | const v =>
    rcases spot_const v with h | ⟨h, -⟩ <;> rw [h]
    · exact htight (by decide) _
    · exact htight (by decide) _
  | sym s => exact htight (by decide : 3 ≤ Operand.atom.rank) _
  | unary op a =>
    rw [spot]
    split
    · exact htight (by decide) _
    · exact htight (by decide) _
  | binary l op r => cases op <;> simp [spot, Operand.rank, Expr.precedence, BinaryOp.precedence]

theorem precedence_le_rank {e : Expr α} (h : ∀ v, e = .const v → ¬ MinusZero v) :
    e.precedence ≤ (spot e).rank := by
  cases e with
  | const v =>
    rcases spot_const v with hs | ⟨hs, hd⟩
    · simp only [hs, Expr.precedence, Operand.rank]
      split <;> decide
    · have hv : v < 0 := Decidable.not_not.1 fun hv => h v rfl ⟨hv, hd⟩
      simp [hs, Expr.precedence, hv, Operand.rank, Expr.signPrecedence]
  | sym s => simp [spot, Operand.rank, Expr.precedence, Expr.atomPrecedence]
  | unary op a =>
    simp only [spot, Expr.precedence]
    split <;> decide
  | binary l op r => cases op <;> simp [spot, Operand.rank, Expr.precedence, BinaryOp.precedence]

variable {scope : Scope}

omit [Printable α] in
/-- A tight phrase can stand for a looser one. -/
theorem Spells.loosen {o o' : Operand} {n : Nat} {text : List Char} {e : Expr α}
    (h : Spells scope o n text e) (ho : o'.rank ≤ o.rank) : Spells scope o' n text e := by
  have hpower : 4 ≤ o.rank → Spells scope .power n text e := fun hr => by
    cases o with
    | atom => exact h.base
    | power => exact h
    | _ => exact absurd hr (by decide)
  have hsigned : 3 ≤ o.rank → Spells scope .signed n text e := fun hr => by
    cases o with
    | signed => exact h
    | sum | product => exact absurd hr (by decide)
    | _ => exact (hpower (by decide)).unsigned
  have hproduct : 2 ≤ o.rank → Spells scope .product n text e := fun hr => by
    cases o with
    | product => exact h
    | sum => exact absurd hr (by decide)
    | _ => exact (hsigned (by decide)).product
  cases o' with
  | sum =>
    cases o with
    | sum => exact h
    | _ => exact (hproduct (by decide)).sum
  | product => exact hproduct ho
  | signed => exact hsigned ho
  | power => exact hpower ho
  | atom =>
    cases o with
    | atom => exact h
    | _ => exact absurd ho (by decide)

/-- The printed text spells the expression. -/
def Prints (scope : Scope) (e : Expr α) : Prop :=
  Spells scope (spot e) e.nesting e.print.toList e

theorem spells_enclose {o : Operand} {e : Expr α} {parens : Bool} (h : Prints scope e)
    (hp : parens = false → o.rank ≤ (spot e).rank) :
    Spells scope o (e.nesting + parens.toNat) (Expr.enclose parens e.print).toList e := by
  cases parens with
  | true =>
    have hsum : Spells scope .sum e.nesting e.print.toList e :=
      h.loosen (by cases spot e <;> decide)
    have hparens : (Expr.enclose true e.print).toList = '(' :: e.print.toList ++ [')'] := by
      simp [Expr.enclose]
    rw [hparens]
    exact hsum.parens.loosen (by cases o <;> decide)
  | false => exact h.loosen (hp rfl)

theorem prints_const {v : α} (h : ReadsBack v) : Prints scope (.const v) := by
  obtain ⟨negative, d, r, hd, hr, hv⟩ := h
  have hatom : Spells scope .atom 1 d.positional (.const r.toScalar : Expr α) := spells_number hr
  cases negative with
  | false =>
    have hs : spot (.const v) = .atom := by simp [spot, hd]
    have hnest : (Expr.const v).nesting = 1 := by simp [Expr.nesting, hd]
    simp only [Bool.false_eq_true, if_false] at hv
    rw [Prints, hs, hnest, ← hv]
    simpa [Expr.print, Printable.plain, hv, hd, Numeral.plain, Numeral.minus] using hatom
  | true =>
    have hs : spot (.const v) = .signed := by simp [spot, hd]
    have hnest : (Expr.const v).nesting = 2 := by simp [Expr.nesting, hd]
    have hminus : Spells scope .signed 2 ('-' :: d.positional) (.const (-r.toScalar) : Expr α) :=
      hatom.base.unsigned.minus
    simp only [if_true] at hv
    rw [Prints, hs, hnest]
    rw [hv] at hminus
    simpa [Expr.print, Printable.plain, hd, Numeral.plain, Numeral.minus] using hminus

/-! ## Printed expressions -/

theorem toList_print_binary (l : Expr α) (op : BinaryOp) (r : Expr α) {c : Char}
    (hm : op.mark = String.singleton c) :
    (Expr.print (.binary l op r)).toList =
      (Expr.enclose (Expr.leftEnclosed op l) l.print).toList ++
        (' ' :: c :: ' ' :: (Expr.enclose (Expr.rightEnclosed op r) r.print).toList) := by
  simp [Expr.print, hm]

/-- The operations of a chain bind as tightly as the chain, and its items one step tighter. -/
theorem Joins.precedence {link : Link} {kind : Kind} {op : BinaryOp} (h : Joins link kind op) :
    op ≠ .pow ∧ link.whole.rank = op.precedence ∧ link.item.rank = op.precedence + 1 ∧
      op.precedence ≤ 2 := by
  cases h <;> decide

theorem spells_joined {link : Link} {kind : Kind} {op : BinaryOp} {l r : Expr α} {c : Char}
    (hj : Joins link kind op) (hm : op.mark = String.singleton c) (hb : Text.isBlank c = false)
    (hc : ∀ text, lexeme c (' ' :: text) = (kind, 0)) (hf : (Expr.binary l op r).Folded)
    (hl : Prints scope l) (hr : Prints scope r) :
    Spells scope link.whole (Expr.nesting (.binary l op r)) (Expr.print (.binary l op r)).toList
      (.binary l op r) := by
  obtain ⟨hpow, hwhole, hitem, hle⟩ := hj.precedence
  have hml := min_precedence_le_rank l
  have hmr := min_precedence_le_rank r
  have hleft : Spells scope link.whole (l.nesting + (Expr.leftEnclosed op l).toNat)
      (Expr.enclose (Expr.leftEnclosed op l) l.print).toList l := by
    refine spells_enclose hl fun he => ?_
    simp only [Expr.leftEnclosed, hpow, if_false, decide_eq_false_iff_not] at he
    omega
  have hright : Spells scope link.item (r.nesting + (Expr.rightEnclosed op r).toNat)
      (Expr.enclose (Expr.rightEnclosed op r) r.print).toList r := by
    refine spells_enclose hr fun he => ?_
    simp only [Expr.rightEnclosed, hpow, if_false, decide_eq_false_iff_not] at he
    omega
  have h := hleft.joined hj hb hc hright
  rw [Expr.ofBinary_of_folded hf, ← toList_print_binary l op r hm] at h
  simpa [Expr.nesting, hpow] using h

theorem spells_exponent {r : Expr α} (hr : Prints scope r) :
    Spells scope .signed (r.nesting + (Expr.rightEnclosed .pow r).toNat)
      (Expr.enclose (Expr.rightEnclosed .pow r) r.print).toList r := by
  have hmr := min_precedence_le_rank r
  refine spells_enclose hr fun he => ?_
  have he' : ¬ r.precedence < 3 := of_decide_eq_false he
  change 3 ≤ (spot r).rank
  omega

theorem spells_power {l r : Expr α} (hf : (Expr.binary l .pow r).Folded)
    (hz : ∀ v, l = .const v → ¬ MinusZero v) (hl : Prints scope l) (hr : Prints scope r) :
    Prints scope (.binary l .pow r) := by
  have hpl := precedence_le_rank hz
  have hleft : Spells scope .atom (l.nesting + (Expr.leftEnclosed .pow l).toNat)
      (Expr.enclose (Expr.leftEnclosed .pow l) l.print).toList l := by
    refine spells_enclose hl fun he => ?_
    have he' : ¬ l.precedence ≤ 4 := of_decide_eq_false he
    change 5 ≤ (spot l).rank
    omega
  have h := hleft.raised (spells_exponent hr)
  rwa [Expr.ofBinary_of_folded hf, ← toList_print_binary l .pow r rfl] at h

theorem prints_unary {op : UnaryOp} {a : Expr α} (hf : (Expr.unary op a).Folded)
    (ha : Prints scope a) : Prints scope (.unary op a) := by
  have hma := min_precedence_le_rank a
  have hrefold := Expr.ofUnary_of_folded hf
  cases hn : op.name? with
  | none =>
    obtain rfl : op = .neg := by cases op <;> first | rfl | cases hn
    have harg := @spells_enclose α _ _ scope .signed a (a.precedence < Expr.signPrecedence) ha
      fun he => by
        have he' : ¬ a.precedence < 3 := of_decide_eq_false he
        change 3 ≤ (spot a).rank
        omega
    have h := harg.minus
    rw [hrefold] at h
    have hs : spot (.unary .neg a) = .signed := rfl
    rw [Prints, hs]
    simpa [Expr.print, Expr.nesting, UnaryOp.name?] using h
  | some name =>
    have hneg : op ≠ .neg := by
      rintro rfl
      cases hn
    have hs : spot (.unary op a) = .atom := by rw [spot, if_neg hneg]
    have harg : Spells scope .sum a.nesting a.print.toList a :=
      ha.loosen (by cases spot a <;> decide)
    have ho : UnaryOp.ofName? (String.ofList name.toList) = some op := by
      rw [String.ofList_toList]
      exact UnaryOp.ofName?_name? op name hn
    have h := harg.call (isWord_name? hn) ho
    rw [hrefold] at h
    rw [Prints, hs, Expr.nesting_call hneg]
    simpa [Expr.print, hn] using h

/-- The induction is on the tree: each printed part is enclosed unless its phrase binds tightly
enough for where it stands. -/
theorem prints {e : Expr α} (hf : e.Folded) (hr : ∀ v ∈ e.constants, ReadsBack v)
    (hz : ∀ v ∈ e.powerBases, ¬ MinusZero v)
    (hs : ∀ s ∈ e.occurrences, Named scope s) : Prints scope e := by
  induction e with
  | const v => exact prints_const (hr v (by simp [Expr.constants]))
  | sym s =>
    obtain ⟨hfind, hn⟩ := hs s (by simp [Expr.occurrences])
    exact spells_name (isWord_of_isName hn) (by rw [String.ofList_toList]; exact hfind)
  | unary op a ih => exact prints_unary hf (ih hf.1 hr hz hs)
  | binary l op r ihl ihr =>
    simp only [Expr.constants, Expr.powerBases, Expr.occurrences, List.mem_append, or_imp,
      forall_and] at hr hz hs
    have hl := ihl hf.1 hr.1 hz.2.1 hs.1
    have hr := ihr hf.2.1 hr.2 hz.2.2 hs.2
    cases op with
    | add => exact spells_joined (c := '+') .plus rfl (by decide) (fun _ => rfl) hf hl hr
    | sub => exact spells_joined (c := '-') .minus rfl (by decide) (fun _ => rfl) hf hl hr
    | mul => exact spells_joined (c := '*') .star rfl (by decide) (fun _ => rfl) hf hl hr
    | div => exact spells_joined (c := '/') .slash rfl (by decide) (fun _ => rfl) hf hl hr
    | pow =>
      refine spells_power hf (fun v hv => hz.1 v ?_) hl hr
      simp [hv, Expr.constant?]

/-! ## Reading a printed expression -/

theorem exists_derivation_print_depth {e : Expr α} (hf : e.Folded)
    (hr : ∀ v ∈ e.constants, ReadsBack v) (hz : ∀ v ∈ e.powerBases, ¬ MinusZero v)
    (hs : ∀ s ∈ e.occurrences, Named scope s) :
    ∃ d : Derivation (.operand .sum), d.yield = scan e.print ∧ d.depth = e.nesting ∧
      d.Legible scope ∧ d.image scope = e := by
  have h : Spells scope .sum e.nesting e.print.toList e :=
    (prints hf hr hz hs).loosen (by cases spot e <;> decide)
  obtain ⟨d, hy, hd, hl, he⟩ := h 0 [] closed_nil
  rw [List.append_nil, scanFrom, List.append_nil] at hy
  exact ⟨d, hy.symm, hd, hl, he⟩

theorem exists_derivation_print {e : Expr α} (hf : e.Folded)
    (hr : ∀ v ∈ e.constants, ReadsBack v) (hz : ∀ v ∈ e.powerBases, ¬ MinusZero v)
    (hs : ∀ s ∈ e.occurrences, Named scope s) :
    ∃ d : Derivation (.operand .sum), d.yield = scan e.print ∧ d.Legible scope ∧
      d.image scope = e := by
  obtain ⟨d, hy, -, hl, he⟩ := exists_derivation_print_depth hf hr hz hs
  exact ⟨d, hy, hl, he⟩

/-- An expression that the folding constructors have built reads back from its printed text as the
same tree, or is refused for its depth; and that only if the text nests too deep. Assumed of
printing: the digits of a finite constant read back as the constant. -/
theorem parse_print {e : Expr α} (scope : Scope) (he : e.Built)
    (hfinite : ∀ v ∈ e.constants, Scalar.isFinite v = true)
    (hprint : ∀ v ∈ e.constants, Scalar.isFinite v = true → ReadsBack v)
    (hzero : ∀ v ∈ e.powerBases, ¬ MinusZero v) (hsymbols : ∀ s ∈ e.symbols, Named scope s) :
    (parse scope e.print = .ok e ∨
      ∃ span, (parse scope e.print : Except Error (Expr α)) = .error (.tooDeep maxDepth span)) ∧
    ((∃ span, (parse scope e.print : Except Error (Expr α)) = .error (.tooDeep maxDepth span)) ↔
      ∃ d : Derivation (.operand .sum), tokenize e.print = d.yield ++ [endMark e.print] ∧
        maxDepth < d.depth) := by
  obtain ⟨d, hy, hl, himage⟩ := exists_derivation_print he.folded
    (fun v hv => hprint v hv (hfinite v hv)) hzero
    (fun s hs => hsymbols s (Expr.mem_symbols.2 hs))
  have hunique (d' : Derivation (.operand .sum))
      (h : tokenize e.print = d'.yield ++ [endMark e.print]) : d' = d := by
    rw [tokenize, List.append_cancel_right_eq] at h
    exact Derivation.yield_injective (h.symm.trans hy.symm)
  have h := parse_of_derivation (α := α) hy hl
  rw [himage] at h
  split at h
  · next hd =>
    refine ⟨.inl h, ?_, ?_⟩
    · rintro ⟨span, hspan⟩
      rw [h] at hspan
      cases hspan
    · rintro ⟨d', hd', hdeep⟩
      rw [hunique d' hd'] at hdeep
      exact absurd hd (Nat.not_le.2 hdeep)
  · next hd =>
    exact ⟨.inr h, fun _ => ⟨d, by rw [tokenize, hy], Nat.lt_of_not_le hd⟩, fun _ => h⟩

/-- `x ^ 2 - -2.5 * sin(rate)` -/
def wave : Expr Float :=
  Expr.ofBinary (Expr.ofBinary (.sym ⟨"x", 0⟩) .pow (.const 2)) .sub
    (Expr.ofBinary (.const (-2.5)) .mul (Expr.ofUnary .sin (.sym ⟨"rate", 1⟩)))

theorem parse_print_wave :
    (wave.Built ∧ (∀ v ∈ wave.constants, Scalar.isFinite v = true) ∧
      (∀ v ∈ wave.constants, Scalar.isFinite v = true → ReadsBack v) ∧
      (∀ v ∈ wave.powerBases, ¬ MinusZero v) ∧
      ∀ s ∈ wave.symbols, Named (Scope.ofList [⟨"x", 0⟩, ⟨"rate", 1⟩]) s) ∧
    (parse (Scope.ofList [⟨"x", 0⟩, ⟨"rate", 1⟩]) wave.print = .ok wave ∨
      ∃ span, (parse (Scope.ofList [⟨"x", 0⟩, ⟨"rate", 1⟩]) wave.print : Except Error (Expr Float)) =
        .error (.tooDeep maxDepth span)) := by
  have hbuilt : wave.Built :=
    .binary .sub (.binary .pow (.sym _) (.const 2 (by decide +kernel)))
      (.binary .mul (.const (-2.5) (by decide +kernel)) (.unary .sin (.sym _)))
  have hconstants : wave.constants = [2, -2.5] := rfl
  have hfinite : ∀ v ∈ wave.constants, Scalar.isFinite v = true := by
    rw [hconstants]
    decide +kernel
  have hprint : ∀ v ∈ wave.constants, Scalar.isFinite v = true → ReadsBack v := by
    simp only [hconstants, List.forall_mem_cons]
    exact ⟨fun _ => ⟨false, ⟨2, 0⟩, ⟨2, 0⟩, by decide +kernel⟩,
      fun _ => ⟨true, ⟨25, -1⟩, ⟨25, -1⟩, by decide +kernel⟩, nofun⟩
  have hzero : ∀ v ∈ wave.powerBases, ¬ MinusZero v := fun v hv => nomatch (hv : v ∈ [])
  have hsymbols : ∀ s ∈ wave.symbols, Named (Scope.ofList [⟨"x", 0⟩, ⟨"rate", 1⟩]) s := by
    have hs : wave.symbols = [⟨"x", 0⟩, ⟨"rate", 1⟩] := rfl
    simp only [hs, List.forall_mem_cons]
    exact ⟨⟨by decide +kernel, ⟨0, 1⟩, by decide +kernel⟩,
      ⟨by decide +kernel, ⟨0, 4⟩, by decide +kernel⟩, nofun⟩
  exact ⟨⟨hbuilt, hfinite, hprint, hzero, hsymbols⟩,
    (parse_print _ hbuilt hfinite hprint hzero hsymbols).1⟩

end Formula

end Optima
