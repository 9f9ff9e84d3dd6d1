import Optima.Proofs.Except
import Optima.Proofs.Formula.RoundTrip

/-!
What a formula reads as prints as a formula that reads as the same tree.

* `Kept`, `holds_image`: what the folding constructors keep holds of all that derivations stand for.
* `named_of_mem_scan`: a symbol that was found under a name of a text is found under its own.
* `parse_print_of_parse`: an expression that was read reads back from its printed text, unless that
  nests too deep; and it nests at most five times as deep as the text that was read.
* `spells_minusZero_power`: a base of negative zero prints as a sign in front of the power.
* `not_parse_print_of_parse`: what can be read can print as a text that nests too deep.
-/

namespace Optima.Formula

variable {α : Type} [Scalar α]

/-! ## Properties of what derivations stand for -/

/-- The folding constructors keep the property, and constants have it. -/
structure Kept (P : Expr α → Prop) : Prop where
  const (v : α) : P (.const v)
  unary (op : UnaryOp) {a : Expr α} (ha : P a) : P (Expr.ofUnary op a)
  binary (op : BinaryOp) {l r : Expr α} (hl : P l) (hr : P r) : P (Expr.ofBinary l op r)

/-- Every expression among the value of a phrase has the property. -/
def Holds (P : Expr α → Prop) : (p : Phrase) → Value α p → Prop
  | .operand _, e => P e
  | .tail _, items => ∀ item ∈ items, P item.2
  | .arguments, args => ∀ e ∈ args, P e

variable {P : Expr α → Prop}

theorem Kept.joined (hP : Kept P) {first : Expr α} {tail : List (BinaryOp × Expr α)}
    (hf : P first) (ht : ∀ item ∈ tail, P item.2) : P (joined first tail) := by
  induction tail generalizing first with
  | nil => exact hf
  | cons item tail ih =>
    obtain ⟨hi, ht⟩ := List.forall_mem_cons.1 ht
    exact ih (hP.binary item.1 hf hi) ht

theorem Kept.callImage (hP : Kept P) (name : String) {args : List (Expr α)}
    (h : ∀ e ∈ args, P e) : P (callImage name args) := by
  unfold Formula.callImage
  split
  · next op arg rest _ => exact hP.unary op (h arg (by simp))
  · next base exponent rest _ => exact hP.binary .pow (h base (by simp)) (h exponent (by simp))
  · exact hP.const _

/-- By induction on the derivation; only the names among its leaves can bring in symbols. -/
theorem holds_image (hP : Kept P) {scope : Scope} {p : Phrase} (d : Derivation p)
    (hs : ∀ t ∈ d.yield, t.kind = .ident → ∀ s, scope.find? t.text = some s → P (.sym s)) :
    Holds P p (d.image scope) := by
  induction d with
  | sum first tail ihf iht =>
    obtain ⟨hf, ht⟩ := List.forall_mem_append.1 hs
    exact hP.joined (ihf hf) (iht ht)
  | product first tail ihf iht =>
    obtain ⟨hf, ht⟩ := List.forall_mem_append.1 hs
    exact hP.joined (ihf hf) (iht ht)
  | done => exact List.forall_mem_nil _
  | next t op hj item tail ihi iht =>
    obtain ⟨-, hs⟩ := List.forall_mem_cons.1 hs
    obtain ⟨hi, ht⟩ := List.forall_mem_append.1 hs
    exact List.forall_mem_cons.2 ⟨ihi hi, iht ht⟩
  | minus t ht part ih => exact hP.unary .neg (ih (List.forall_mem_cons.1 hs).2)
  | plus t ht part ih => exact ih (List.forall_mem_cons.1 hs).2
  | unsigned p ih => exact ih hs
  | base a ih => exact ih hs
  | raised a t ht exponent iha ihe =>
    obtain ⟨ha, hs⟩ := List.forall_mem_append.1 hs
    exact hP.binary .pow (iha ha) (ihe (List.forall_mem_cons.1 hs).2)
  | number t ht => exact hP.const _
  | name t ht =>
    change P (nameImage scope t.text)
    unfold nameImage
    split
    · next s hfind => exact hs t (List.mem_singleton_self t) ht s hfind
    · exact hP.const _
  | call f l args r hf hl hr ih =>
    refine hP.callImage f.text (ih fun t ht => hs t ?_)
    simp [Derivation.yield, ht]
  | emptyCall f l r hf hl hr => exact hP.callImage f.text (List.forall_mem_nil _)
  | parens l e r hl hr ih =>
    refine ih fun t ht => hs t ?_
    simp [Derivation.yield, ht]
  | last e ih => exact List.forall_mem_singleton.2 (ih hs)
  | comma e t ht rest ihe ihr =>
    obtain ⟨he, hs⟩ := List.forall_mem_append.1 hs
    exact List.forall_mem_cons.2 ⟨ihe he, ihr (List.forall_mem_cons.1 hs).2⟩

theorem kept_folded : Kept (Expr.Folded (α := α)) where
  const _ := trivial
  unary _ _ ha := Expr.folded_ofUnary ha
  binary _ _ _ hl hr := Expr.folded_ofBinary hl hr

theorem kept_occurrences (q : Symbol → Prop) :
    Kept fun e : Expr α => ∀ s ∈ e.occurrences, q s where
  const _ := List.forall_mem_nil _
  unary op _ ha s hs := ha s (Expr.occurrences_ofUnary_subset op _ hs)
  binary op _ _ hl hr s hs :=
    (List.mem_append.1 (Expr.occurrences_ofBinary_subset _ op _ hs)).elim (hl s) (hr s)

theorem named_of_mem_scan {scope : Scope} {text : String} {t : Token} {s : Symbol}
    (ht : t ∈ scan text) (hk : t.kind = .ident) (hs : scope.find? t.text = some s) :
    Named scope s := by
  have hname : s.name = t.text := by simpa using List.find?_some hs
  have hword : IsWord t.text.toList := isWord_of_mem_scanFrom 0 text.toList t ht hk
  exact ⟨by rw [hname]; exact hs, by rw [hname]; exact isName_of_isWord hword⟩

/-! ## Reading again -/

variable [Printable α]

/-- An expression that was read from a text reads back from its printed text as the same tree, or is
refused for its depth; and that only if the printed text nests too deep, which it cannot unless the
first text nests at least a fifth as deep. Assumed of printing: the digits of a finite constant read
back as the constant. A base that is negative zero is left out: its sign is read as one in front of
the power. -/
theorem parse_print_of_parse {scope : Scope} {source : String} {e : Expr α}
    (h : parse scope source = .ok e)
    (hfinite : ∀ v ∈ e.constants, Scalar.isFinite v = true)
    (hprint : ∀ v ∈ e.constants, Scalar.isFinite v = true → ReadsBack v)
    (hzero : ∀ v ∈ e.powerBases, ¬ MinusZero v) :
    ∃ d d' : Derivation (.operand .sum),
      tokenize source = d.yield ++ [endMark source] ∧
      tokenize e.print = d'.yield ++ [endMark e.print] ∧
      d'.image scope = e ∧ d'.depth ≤ 5 * d.depth ∧
      (d'.depth ≤ maxDepth → (parse scope e.print : Except Error (Expr α)) = .ok e) ∧
      (maxDepth < d'.depth → ∃ span,
        (parse scope e.print : Except Error (Expr α)) = .error (.tooDeep maxDepth span)) := by
  obtain ⟨d, hy, -, -, rfl⟩ := derivation_of_parse h
  have hfolded : (d.image scope : Expr α).Folded :=
    holds_image kept_folded d fun _ _ _ _ _ => trivial
  have hnamed : ∀ s ∈ (d.image scope : Expr α).occurrences, Named scope s := by
    refine holds_image (kept_occurrences _) d fun t ht hk s hs => ?_
    rw [hy] at ht
    simpa [Expr.occurrences] using named_of_mem_scan ht hk hs
  obtain ⟨d', hy', hd', hl', himage⟩ := exists_derivation_print_depth hfolded
    (fun v hv => hprint v hv (hfinite v hv)) hzero hnamed
  have hread := parse_of_derivation (α := α) hy' hl'
  rw [himage] at hread
  refine ⟨d, d', by rw [tokenize, hy], by rw [tokenize, hy'], himage, ?_, fun hd => ?_,
    fun hd => ?_⟩
  · rw [hd']
    exact nesting_image_le scope d
  · rwa [if_pos hd] at hread
  · rwa [if_neg (Nat.not_le.2 hd)] at hread

theorem parse_print_of_parse_slope :
    ∃ e : Expr Float, parse (Scope.ofList [⟨"x", 0⟩]) "0 - x * (1 - 3)" = .ok e ∧
      e.print = "-(x * -2)" ∧
      ∃ d d' : Derivation (.operand .sum),
        tokenize "0 - x * (1 - 3)" = d.yield ++ [endMark "0 - x * (1 - 3)"] ∧
        tokenize e.print = d'.yield ++ [endMark e.print] ∧
        d'.image (Scope.ofList [⟨"x", 0⟩]) = e ∧ d'.depth ≤ 5 * d.depth := by
  have hread : ((parse (Scope.ofList [⟨"x", 0⟩]) "0 - x * (1 - 3)" :
      Except Error (Expr Float)).toOption.any fun e =>
        decide (e.constants = [-2] ∧ e.powerBases = [] ∧ e.print = "-(x * -2)")) = true := by
    decide +kernel
  obtain ⟨e, h, he⟩ := exists_eq_ok_of_any hread
  obtain ⟨hconstants, hbases, htext⟩ := of_decide_eq_true he
  have hfinite : ∀ v ∈ e.constants, Scalar.isFinite v = true := by
    rw [hconstants]
    decide +kernel
  have hprint : ∀ v ∈ e.constants, Scalar.isFinite v = true → ReadsBack v := by
    simp only [hconstants, List.forall_mem_singleton]
    exact fun _ => ⟨true, ⟨2, 0⟩, ⟨2, 0⟩, by decide +kernel⟩
  have hzero : ∀ v ∈ e.powerBases, ¬ MinusZero v := by
    rw [hbases]
    exact nofun
  obtain ⟨d, d', hd, hd', himage, hle, -⟩ := parse_print_of_parse h hfinite hprint hzero
  exact ⟨e, h, htext, d, d', hd, hd', himage, hle⟩

/-- A base that is negative zero loses its sign to the power. -/
theorem spells_minusZero_power {scope : Scope} {v : α} (hv : MinusZero v) (hb : ReadsBack v)
    {e : Expr α} (he : Prints scope e) :
    ∃ n w, -w = v ∧ Spells scope .sum n (Expr.print (.binary (.const v) .pow e)).toList
      (Expr.ofUnary .neg (Expr.ofBinary (.const w) .pow e)) := by
  obtain ⟨hlt, d, hd⟩ := hv
  obtain ⟨negative, d', r, hd', hr, hw⟩ := hb
  cases hd.symm.trans hd'
  have hbase : Spells scope .atom 1 d.positional (.const r.toScalar : Expr α) := spells_number hr
  have hpower := (hbase.raised (spells_exponent he)).unsigned.minus.product.sum
  have htext : (Expr.print (.binary (.const v) .pow e)).toList =
      '-' :: (d.positional ++
        (' ' :: '^' :: ' ' :: (Expr.enclose (Expr.rightEnclosed .pow e) e.print).toList)) := by
    have hopen : Expr.leftEnclosed .pow (.const v) = false := by
      simp [Expr.leftEnclosed, Expr.precedence, hlt, Expr.atomPrecedence, BinaryOp.precedence]
    rw [toList_print_binary (c := '^') _ _ _ rfl, hopen]
    simp [Expr.enclose, Expr.print, Printable.plain, hd, Numeral.plain, Numeral.minus]
  rw [← htext] at hpower
  exact ⟨_, _, hw, hpower⟩

/-! ## Printed texts that nest too deep -/

/-- A text inside so many sines. -/
def sines : Nat → List Char → List Char
  | 0, text => text
  | n + 1, text => "sin".toList ++ ('(' :: sines n text ++ [')'])

def sinesOf : Nat → Expr α → Expr α
  | 0, e => e
  | n + 1, e => .unary .sin (sinesOf n e)

omit [Scalar α] [Printable α] in
theorem isConst_sinesOf {e : Expr α} (h : e.isConst = false) (n : Nat) :
    (sinesOf n e).isConst = false := by
  cases n with
  | zero => exact h
  | succ n => rfl

omit [Scalar α] [Printable α] in
theorem constants_sinesOf (n : Nat) (e : Expr α) : (sinesOf n e).constants = e.constants := by
  induction n with
  | zero => rfl
  | succ n ih => exact ih

theorem print_sinesOf (n : Nat) (e : Expr α) :
    (sinesOf n e).print.toList = sines n e.print.toList := by
  induction n with
  | zero => rfl
  | succ n ih => simp [sinesOf, sines, Expr.print, UnaryOp.name?, ih]

omit [Printable α] in
theorem ofUnary_sin {e : Expr α} (h : e.isConst = false) : Expr.ofUnary .sin e = .unary .sin e := by
  rcases Expr.ofUnary_outcome .sin e with ⟨v, hv⟩ | ⟨hop, -⟩ | hnode
  · cases e with
    | const w => cases h
    | sym s => cases hv
    | unary op a => simp [Expr.ofUnary] at hv
    | binary l op r => cases hv
  · cases hop
  · exact hnode

variable {scope : Scope}

omit [Printable α] in
/-- Each sine opens one more signed part. -/
theorem spells_sines {m : Nat} {text : List Char} {e : Expr α} (hc : e.isConst = false)
    (h : Spells scope .sum m text e) (n : Nat) :
    Spells scope .sum (m + n) (sines n text) (sinesOf n e) := by
  induction n with
  | zero => exact h
  | succ n ih =>
    have hcall := ih.call (@isWord_name? .sin _ rfl) (by decide +kernel : _ = some UnaryOp.sin)
    rw [ofUnary_sin (isConst_sinesOf hc n)] at hcall
    exact hcall.base.unsigned.product.sum

omit [Printable α] in
theorem parse_sines {m : Nat} {text : List Char} {e : Expr α} (hc : e.isConst = false)
    (h : Spells scope .sum m text e) (n : Nat) :
    if m + n ≤ maxDepth then
      (parse scope (String.ofList (sines n text)) : Except Error (Expr α)) = .ok (sinesOf n e)
    else ∃ span, (parse scope (String.ofList (sines n text)) : Except Error (Expr α)) =
      .error (.tooDeep maxDepth span) := by
  obtain ⟨d, hy, hd, hl, he⟩ := spells_sines hc h n 0 [] closed_nil
  rw [List.append_nil, scanFrom, List.append_nil] at hy
  have hscan : d.yield = scan (String.ofList (sines n text)) := by
    rw [scan, String.toList_ofList, hy]
  have hread := parse_of_derivation (α := α) hscan hl
  have hd' : d.depth = m + n := hd
  rwa [he, hd'] at hread

/-- A subtraction from zero reads as a sign, and opens no signed part around its operand. -/
theorem spells_zero_sub {n : Nat} {text : List Char} {e : Expr Float} (hc : e.isConst = false)
    (h : Spells scope .product n text e) :
    Spells scope .sum (max 1 n) ('0' :: ' ' :: '-' :: ' ' :: text) (Expr.ofUnary .neg e) := by
  have hzero : Spells scope .atom 1 ['0'] (.const 0 : Expr Float) :=
    @spells_number Float _ scope ⟨0, 0⟩ ⟨0, 0⟩ (by decide +kernel)
  have hfold : Expr.ofBinary (.const 0) .sub e = Expr.ofUnary .neg e := by
    have hbeq : ((0 : Float) == 0) = true := by decide +kernel
    rcases Expr.ofBinary_cases (.const 0) .sub e with ⟨v, w, -, rfl, -⟩ | ⟨v, hv, -, hof⟩ |
      ⟨w, hw, -, -⟩ | ⟨hw, -, -⟩
    · cases hc
    · cases hv
      rw [hof, Expr.fromLeft?, if_pos hbeq, Option.getD_some]
    · cases hw
    · cases hw
  have hjoined := hzero.base.unsigned.product.sum.joined (c := '-') .minus (by decide)
    (fun _ => rfl) h
  rwa [hfold] at hjoined

/-- A sine of a difference from zero can be read at a depth at which its printed text is refused,
since the sign in that opens one more signed part. -/
theorem not_parse_print_of_parse :
    ¬ ∀ (scope : Scope) (source : String) (e : Expr Float), parse scope source = .ok e →
      (∀ v ∈ e.constants, Scalar.isFinite v = true) →
        ∃ e', parse scope e.print = .ok e' ∧ (e' == e) = true := by
  intro h
  have hx : Spells (.ofList [⟨"x", 0⟩]) .atom 1 ['x'] (.sym ⟨"x", 0⟩ : Expr Float) :=
    spells_name ⟨'x', [], rfl, by decide, by decide, nofun⟩ (by decide +kernel)
  have hread := parse_sines rfl (spells_zero_sub rfl hx.base.unsigned.product) 127
  have hdeep := parse_sines rfl hx.base.unsigned.minus.product.sum 127
  have hprint : String.ofList (sines 127 ['-', 'x']) =
      (sinesOf 127 (Expr.ofUnary .neg (.sym ⟨"x", 0⟩) : Expr Float)).print := by
    rw [← String.toList_inj, print_sinesOf, String.toList_ofList]
    rfl
  rw [if_pos (by decide)] at hread
  rw [if_neg (by decide), hprint] at hdeep
  obtain ⟨span, hdeep⟩ := hdeep
  obtain ⟨e', hagain, -⟩ := h _ _ _ hread (by rw [constants_sinesOf]; exact nofun)
  exact nomatch hdeep.symm.trans hagain

end Optima.Formula
