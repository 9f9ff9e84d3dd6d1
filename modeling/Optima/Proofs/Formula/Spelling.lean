import Optima.Proofs.Formula.Numbers

/-!
Texts that spell an expression.

* `Closed`: what can stand behind a spelled text: nothing, a space or a closing parenthesis.
* `Spells`: wherever such a text stands in front of a closed one, its tokens have a derivation of the
  expression that opens so many signed parts at once.
* `spells_name`, `spells_number`, `Spells.parens`, `Spells.joined`, …: one rule for each way to put
  texts together.
-/

namespace Optima.Formula

open Text

/-! ## The first token of a text -/

theorem byteCount_append (text text' : List Char) :
    byteCount (text ++ text') = byteCount text + byteCount text' := by
  induction text with
  | nil => simp [byteCount]
  | cons c text ih => simp [byteCount, ih, Nat.add_assoc]

theorem scanFrom_space (pos : Nat) (text : List Char) :
    scanFrom pos (' ' :: text) = scanFrom (pos + 1) text := by
  rw [scanFrom, if_pos (by decide)]
  rfl

theorem scanFrom_cons {c : Char} (hb : isBlank c = false) (pos : Nat) (text : List Char) :
    scanFrom pos (c :: text) =
      ⟨(lexeme c text).1, ⟨pos, pos + byteCount (c :: text.take (lexeme c text).2)⟩,
        String.ofList (c :: text.take (lexeme c text).2)⟩ ::
        scanFrom (pos + byteCount (c :: text.take (lexeme c text).2))
          (text.drop (lexeme c text).2) := by
  rw [scanFrom, if_neg (by simp [hb])]

theorem scanFrom_word {c : Char} {word tail : List Char} {kind : Kind} (hb : isBlank c = false)
    (hl : lexeme c (word ++ tail) = (kind, word.length)) (pos : Nat) :
    scanFrom pos (c :: word ++ tail) =
      ⟨kind, ⟨pos, pos + byteCount (c :: word)⟩, String.ofList (c :: word)⟩ ::
        scanFrom (pos + byteCount (c :: word)) tail := by
  rw [List.cons_append, scanFrom_cons hb, hl]
  simp

/-- The token of a mark of one character. -/
def markToken (kind : Kind) (c : Char) (pos : Nat) : Token :=
  ⟨kind, ⟨pos, pos + byteCount [c]⟩, String.ofList [c]⟩

theorem scanFrom_mark {c : Char} {text : List Char} {kind : Kind} (hb : isBlank c = false)
    (hl : lexeme c text = (kind, 0)) (pos : Nat) :
    scanFrom pos (c :: text) = markToken kind c pos :: scanFrom (pos + byteCount [c]) text :=
  @scanFrom_word c [] text kind hb hl pos

/-! ## Closed texts -/

def Closed (text : List Char) : Prop := ∀ c ∈ text.head?, c = ' ' ∨ c = ')'

theorem closed_nil : Closed [] := by simp [Closed]

theorem closed_space (text : List Char) : Closed (' ' :: text) := by simp [Closed]

theorem closed_paren (text : List Char) : Closed (')' :: text) := by simp [Closed]

/-! ## Names -/

theorem lexeme_ident {c : Char} {text : List Char} (h : (lexeme c text).1 = .ident)
    (text' : List Char) : lexeme c text' = (.ident, wordCount text') := by
  unfold lexeme at h ⊢
  split at h
  all_goals try cases h
  · split at h <;> cases h
  · next _ h₁ h₂ h₃ h₄ h₅ h₆ h₇ h₈ =>
    split at h
    · cases h
    · next hd =>
      split at h
      · next hs =>
        have hd' : (c.isDigit || (c == '.' && startsWithDigit text')) = false := by
          rw [Bool.or_eq_true, not_or] at hd
          have hdot : c ≠ '.' := by
            rintro rfl
            exact absurd hs (by decide)
          simp [hd.1, hdot]
        rw [if_neg (Bool.eq_false_iff.1 hd'), if_pos hs]
      · cases h

/-- A word that is scanned as a name. -/
def IsWord (word : List Char) : Prop :=
  ∃ c text, word = c :: text ∧ isBlank c = false ∧ (lexeme c []).1 = .ident ∧
    ∀ c ∈ text, isWordChar c = true

theorem wordCount_append {word tail : List Char} (hw : ∀ c ∈ word, isWordChar c = true)
    (ht : ∀ c ∈ tail.head?, isWordChar c = false) : wordCount (word ++ tail) = word.length := by
  rw [wordCount, List.takeWhile_append_of_pos hw]
  cases tail with
  | nil => simp
  | cons d tail => simp [ht d (by simp)]

theorem scanFrom_name {word tail : List Char} (hw : IsWord word)
    (ht : ∀ c ∈ tail.head?, isWordChar c = false) (pos : Nat) :
    scanFrom pos (word ++ tail) =
      ⟨.ident, ⟨pos, pos + byteCount word⟩, String.ofList word⟩ ::
        scanFrom (pos + byteCount word) tail := by
  obtain ⟨c, text, rfl, hb, hl, hc⟩ := hw
  exact scanFrom_word hb (by rw [lexeme_ident hl, wordCount_append hc ht]) pos

/-- The characters of a name behind the first one are all that are allowed in it. -/
theorem take_ident {c : Char} {text : List Char} {more : Nat} (h : lexeme c text = (.ident, more)) :
    text.take more = text.takeWhile isWordChar := by
  have hmore : wordCount text = more := by
    rw [lexeme_ident (congrArg Prod.fst h) text] at h
    exact congrArg Prod.snd h
  rw [← hmore, wordCount, ← List.prefix_iff_eq_take.1 (List.takeWhile_prefix _)]

/-- A token that is scanned as a name is a word. -/
theorem isWord_of_mem_scanFrom (pos : Nat) (text : List Char) :
    ∀ t ∈ scanFrom pos text, t.kind = .ident → IsWord t.text.toList := by
  fun_induction scanFrom pos text with
  | case1 pos => exact List.forall_mem_nil _
  | case2 pos c text hb ih => exact ih
  | case3 pos c text hb kind more hl chars stop ih =>
    refine List.forall_mem_cons.2 ⟨fun hk => ?_, ih⟩
    obtain rfl : kind = .ident := hk
    refine ⟨c, text.take more, String.toList_ofList, Bool.eq_false_iff.2 hb,
      by rw [lexeme_ident (congrArg Prod.fst hl)], fun d hd => ?_⟩
    rw [take_ident hl] at hd
    exact List.all_eq_true.1 List.all_takeWhile d hd

theorem Closed.not_wordChar {tail : List Char} (ht : Closed tail) :
    ∀ c ∈ tail.head?, isWordChar c = false := by
  intro c hc
  rcases ht c hc with rfl | rfl <;> decide

/-! ## Numbers -/

theorem isBlank_of_isDigit {c : Char} (h : c.isDigit = true) : isBlank c = false := by
  have hc : 48 ≤ c.toNat ∧ c.toNat ≤ 57 := by
    simpa [Char.isDigit, UInt32.le_iff_toNat_le] using h
  simp [isBlank, blankRanges, inRanges]
  omega

theorem lexeme_digit {c : Char} (h : c.isDigit = true) (text : List Char) :
    lexeme c text = (.number, numberCount (c :: text) - 1) := by
  unfold lexeme
  split
  all_goals try exact absurd h (by decide)
  simp [h]

theorem Closed.startsWithDigit {tail : List Char} (ht : Closed tail) :
    startsWithDigit tail = false := by
  cases tail with
  | nil => rfl
  | cons c tail => rcases ht c (by simp) with rfl | rfl <;> rfl

theorem Closed.fractionCount {tail : List Char} (ht : Closed tail) : fractionCount tail = 0 := by
  cases tail with
  | nil => rfl
  | cons c tail => rcases ht c (by simp) with rfl | rfl <;> rfl

theorem Closed.powerCount {tail : List Char} (ht : Closed tail) : powerCount tail = 0 := by
  cases tail with
  | nil => rfl
  | cons c tail => rcases ht c (by simp) with rfl | rfl <;> rfl

theorem digitCount_append {ds tail : List Char} (hd : ∀ c ∈ ds, c.isDigit = true)
    (ht : startsWithDigit tail = false) : digitCount (ds ++ tail) = ds.length := by
  have h := congrArg Prod.fst (leadingDigits_of_append hd ht)
  exact congrArg List.length h

/-- A power of ten in front of a closed text is scanned to its end, and neither a digit nor a
fraction is seen in it. -/
theorem IsPower.append_closed {power tail : List Char} (hp : IsPower power) (ht : Closed tail) :
    startsWithDigit (power ++ tail) = false ∧ fractionCount (power ++ tail) = 0 ∧
      powerCount (power ++ tail) = power.length := by
  cases hp with
  | absent => exact ⟨ht.startsWithDigit, ht.fractionCount, ht.powerCount⟩
  | @marked mark sign ds hm hs hn hd =>
    have hcount : digitCount (ds ++ tail) = ds.length := digitCount_append hd ht.startsWithDigit
    have hmark : mark.isDigit = false ∧ mark ≠ '.' := by rcases hm with rfl | rfl <;> decide
    obtain ⟨d, ds, rfl⟩ := List.exists_cons_of_ne_nil hn
    have hdigit : startsWithDigit (d :: ds ++ tail) = true := hd d List.mem_cons_self
    refine ⟨hmark.1, ?_, ?_⟩
    · rw [List.cons_append, fractionCount]
      exact fun _ h => hmark.2 (List.cons.inj h).1
    · rw [List.cons_append] at hcount hdigit
      have hplus : d ≠ '+' := fun h => by simp [h, startsWithDigit] at hdigit
      have hminus : d ≠ '-' := fun h => by simp [h, startsWithDigit] at hdigit
      rcases hs with rfl | rfl | rfl <;>
        simp [powerCount, hm, hplus, hminus, hdigit, hcount] <;> omega

/-- The digits of a number, its fraction and its power of ten are scanned to their end. -/
theorem numberCount_append {whole ds fraction power tail : List Char}
    (hw : ∀ c ∈ whole, c.isDigit = true) (hf : IsFraction ds fraction) (hp : IsPower power)
    (ht : Closed tail) :
    numberCount (whole ++ (fraction ++ power) ++ tail) = (whole ++ (fraction ++ power)).length := by
  obtain ⟨hdigit, hfraction, hpower⟩ := hp.append_closed ht
  cases hf with
  | absent =>
    rw [List.append_assoc, List.nil_append, numberCount, digitCount_append hw hdigit, List.drop_left]
    simp [hfraction, hpower]
  | point hd =>
    have hdot : startsWithDigit ('.' :: ds ++ (power ++ tail)) = false := rfl
    rw [List.append_assoc, List.append_assoc, numberCount, digitCount_append hw hdot, List.drop_left]
    simp only [List.cons_append, fractionCount, digitCount_append hd hdigit]
    have hdrop : (whole ++ '.' :: (ds ++ (power ++ tail))).drop (whole.length + (1 + ds.length)) =
        power ++ tail := by
      rw [← List.drop_drop, List.drop_left, Nat.add_comm, List.drop_succ_cons, List.drop_left]
    rw [hdrop, hpower]
    simp
    omega

/-- The positional form of a number: digits, and a fraction or none. -/
theorem exists_positional (d : Decimal) :
    ∃ whole ds fraction, d.positional = whole ++ fraction ∧ whole ≠ [] ∧
      (∀ c ∈ whole, c.isDigit = true) ∧ IsFraction ds fraction := by
  have hd : ∀ c ∈ Decimal.digitChars d.digits, c.isDigit = true :=
    fun c hc => Nat.isDigit_of_mem_toDigits (by decide) (by decide) hc
  have hz (n : Nat) : ∀ c ∈ List.replicate n '0', c.isDigit = true := by
    intro c hc
    rw [List.eq_of_mem_replicate hc]
    decide
  unfold Decimal.positional
  simp only
  split
  · refine ⟨_, [], [], (List.append_nil _).symm, ?_, ?_, .absent⟩
    · simp [Decimal.digitChars, Nat.toDigits_ne_nil]
    · intro c hc
      rcases List.mem_append.1 hc with hc | hc
      · exact hd c hc
      · exact hz _ c hc
  · split
    · next hlt =>
      refine ⟨_, _, _, rfl, ?_, fun c hc => hd c (List.mem_of_mem_take hc),
        .point fun c hc => hd c (List.mem_of_mem_drop hc)⟩
      intro hnil
      have := congrArg List.length hnil
      simp at this
      omega
    · refine ⟨['0'], _, _, rfl, by simp, fun c hc => List.mem_singleton.1 hc ▸ rfl,
        .point fun c hc => ?_⟩
      rcases List.mem_append.1 hc with hc | hc
      · exact hz _ c hc
      · exact hd c hc

theorem scanFrom_positional (d : Decimal) {tail : List Char} (ht : Closed tail) (pos : Nat) :
    scanFrom pos (d.positional ++ tail) =
      ⟨.number, ⟨pos, pos + byteCount d.positional⟩, String.ofList d.positional⟩ ::
        scanFrom (pos + byteCount d.positional) tail := by
  obtain ⟨whole, ds, fraction, hp, hne, hw, hf⟩ := exists_positional d
  rw [hp]
  have hn := numberCount_append hw hf .absent ht
  rw [List.append_nil] at hn
  cases whole with
  | nil => exact absurd rfl hne
  | cons c whole =>
    have hc := hw c (by simp)
    refine @scanFrom_word c (whole ++ fraction) tail .number (isBlank_of_isDigit hc) ?_ pos
    simp only [List.cons_append] at hn
    rw [lexeme_digit hc, hn]
    rfl

/-! ## Adding an item to a chain -/

variable {α : Type} [Scalar α]

theorem exists_snoc {link : Link} {t : Token} {op : BinaryOp} (h : Joins link t.kind op)
    (item : Derivation (.operand link.item)) (scope : Scope) (hi : item.Legible scope) :
    (tail : Derivation (.tail link)) → tail.Legible scope →
      ∃ tail' : Derivation (.tail link), tail'.yield = tail.yield ++ t :: item.yield ∧
        tail'.depth = max tail.depth item.depth ∧ tail'.Legible scope ∧
        (tail'.image scope : List (BinaryOp × Expr α)) =
          tail.image scope ++ [(op, item.image scope)]
  | .done, _ =>
    ⟨.next t op h item .done, by simp [Derivation.yield], Nat.max_comm _ _, ⟨hi, trivial⟩, rfl⟩
  | .next u op' h' item' tail, hl => by
    obtain ⟨tail', hy, hd, hl', himage⟩ := exists_snoc h item scope hi tail hl.2
    exact ⟨.next u op' h' item' tail', by simp [Derivation.yield, hy],
      by simp [Derivation.depth, hd, Nat.max_assoc], ⟨hl.1, hl'⟩,
      by simp [Derivation.image, himage]⟩

theorem joined_append (first : Expr α) (tail : List (BinaryOp × Expr α)) (op : BinaryOp)
    (e : Expr α) : joined first (tail ++ [(op, e)]) = Expr.ofBinary (joined first tail) op e := by
  simp [joined]

theorem exists_joined {link : Link} {t : Token} {op : BinaryOp} (h : Joins link t.kind op)
    {scope : Scope} (d : Derivation (.operand link.whole)) (item : Derivation (.operand link.item))
    (hd : d.Legible scope) (hi : item.Legible scope) :
    ∃ d' : Derivation (.operand link.whole), d'.yield = d.yield ++ t :: item.yield ∧
      d'.depth = max d.depth item.depth ∧ d'.Legible scope ∧
      (d'.image scope : Expr α) = Expr.ofBinary (d.image scope) op (item.image scope) := by
  cases link with
  | sum =>
    cases d with
    | sum first tail =>
      obtain ⟨tail', hy, hd', hl, himage⟩ := exists_snoc (α := α) h item scope hi tail hd.2
      exact ⟨.sum first tail', by simp [Derivation.yield, hy],
        by simp [Derivation.depth, hd', Nat.max_assoc], ⟨hd.1, hl⟩,
        (congrArg (joined _) himage).trans (joined_append _ _ _ _)⟩
  | product =>
    cases d with
    | product first tail =>
      obtain ⟨tail', hy, hd', hl, himage⟩ := exists_snoc (α := α) h item scope hi tail hd.2
      exact ⟨.product first tail', by simp [Derivation.yield, hy],
        by simp [Derivation.depth, hd', Nat.max_assoc], ⟨hd.1, hl⟩,
        (congrArg (joined _) himage).trans (joined_append _ _ _ _)⟩

/-! ## Spelled expressions -/

/-- A power and an atom stand in a signed part, which their own depth does not count. -/
def Operand.around : Operand → Nat
  | .sum | .product | .signed => 0
  | .power | .atom => 1

/-- In front of a closed text, the text is scanned to the tokens of a derivation of `e` that opens
`n` signed parts at once, the one around it included. -/
def Spells (scope : Scope) (o : Operand) (n : Nat) (text : List Char) (e : Expr α) : Prop :=
  ∀ pos tail, Closed tail → ∃ d : Derivation (.operand o),
    scanFrom pos (text ++ tail) = d.yield ++ scanFrom (pos + byteCount text) tail ∧
      d.depth + o.around = n ∧ d.Legible scope ∧ d.image scope = e

variable {scope : Scope} {n n' : Nat}

theorem spells_number {d r : Decimal} (hr : Decimal.read? d.positional = some r) :
    Spells scope .atom 1 d.positional (.const r.toScalar : Expr α) := by
  intro pos tail ht
  refine ⟨.number ⟨.number, ⟨pos, pos + byteCount d.positional⟩, String.ofList d.positional⟩ rfl,
    scanFrom_positional d ht pos, rfl, trivial, ?_⟩
  simp [Derivation.image, numberImage, hr]

theorem spells_name {word : List Char} (hw : IsWord word) {s : Symbol}
    (hs : scope.find? (String.ofList word) = some s) :
    Spells scope .atom 1 word (.sym s : Expr α) := by
  intro pos tail ht
  refine ⟨.name ⟨.ident, ⟨pos, pos + byteCount word⟩, String.ofList word⟩ rfl,
    scanFrom_name hw ht.not_wordChar pos, rfl, .inl ?_, ?_⟩
  · rw [hs]
    rfl
  · simp [Derivation.image, nameImage, hs]

theorem Spells.parens {text : List Char} {e : Expr α} (h : Spells scope .sum n text e) :
    Spells scope .atom (n + 1) ('(' :: text ++ [')']) e := by
  intro pos tail ht
  obtain ⟨d, hy, hd, hl, he⟩ := h (pos + byteCount ['(']) (')' :: tail) (closed_paren tail)
  refine ⟨.parens (markToken .leftParen '(' pos) d
    (markToken .rightParen ')' (pos + byteCount ('(' :: text))) rfl rfl, ?_,
    congrArg Nat.succ hd, hl, he⟩
  rw [List.append_assoc, List.cons_append, scanFrom_mark (by decide) rfl]
  simp only [List.singleton_append, hy, Derivation.yield]
  rw [scanFrom_mark (by decide) rfl]
  simp [byteCount, byteCount_append, Nat.add_assoc]

theorem Spells.base {text : List Char} {e : Expr α} (h : Spells scope .atom n text e) :
    Spells scope .power n text e := by
  intro pos tail ht
  obtain ⟨d, hy, hd, hl, he⟩ := h pos tail ht
  exact ⟨.base d, hy, hd, hl, he⟩

theorem Spells.unsigned {text : List Char} {e : Expr α} (h : Spells scope .power n text e) :
    Spells scope .signed n text e := by
  intro pos tail ht
  obtain ⟨d, hy, hd, hl, he⟩ := h pos tail ht
  exact ⟨.unsigned d, hy, hd, hl, he⟩

theorem Spells.product {text : List Char} {e : Expr α} (h : Spells scope .signed n text e) :
    Spells scope .product n text e := by
  intro pos tail ht
  obtain ⟨d, hy, hd, hl, he⟩ := h pos tail ht
  exact ⟨.product d .done, by rw [hy, Derivation.yield, Derivation.yield, List.append_nil],
    (Nat.max_zero d.depth).trans hd, ⟨hl, trivial⟩, he⟩

theorem Spells.sum {text : List Char} {e : Expr α} (h : Spells scope .product n text e) :
    Spells scope .sum n text e := by
  intro pos tail ht
  obtain ⟨d, hy, hd, hl, he⟩ := h pos tail ht
  exact ⟨.sum d .done, by rw [hy, Derivation.yield, Derivation.yield, List.append_nil],
    (Nat.max_zero d.depth).trans hd, ⟨hl, trivial⟩, he⟩

theorem Spells.minus {text : List Char} {e : Expr α} (h : Spells scope .signed n text e) :
    Spells scope .signed (n + 1) ('-' :: text) (Expr.ofUnary .neg e) := by
  intro pos tail ht
  obtain ⟨d, hy, hd, hl, he⟩ := h (pos + byteCount ['-']) tail ht
  refine ⟨.minus (markToken .minus '-' pos) rfl d, ?_, congrArg Nat.succ hd, hl, congrArg _ he⟩
  rw [List.cons_append, scanFrom_mark (by decide) rfl, hy]
  simp [Derivation.yield, byteCount, Nat.add_assoc]

/-- A call of a function with one argument. -/
theorem Spells.call {word text : List Char} {op : UnaryOp} {e : Expr α} (hw : IsWord word)
    (ho : UnaryOp.ofName? (String.ofList word) = some op) (h : Spells scope .sum n text e) :
    Spells scope .atom (n + 1) (word ++ ('(' :: text ++ [')'])) (Expr.ofUnary op e) := by
  intro pos tail ht
  obtain ⟨d, hy, hd, hl, he⟩ :=
    h (pos + byteCount word + byteCount ['(']) (')' :: tail) (closed_paren tail)
  refine ⟨.call ⟨.ident, ⟨pos, pos + byteCount word⟩, String.ofList word⟩
    (markToken .leftParen '(' (pos + byteCount word)) (.last d)
    (markToken .rightParen ')' (pos + byteCount word + byteCount ('(' :: text))) rfl rfl rfl,
    ?_, congrArg Nat.succ hd, ⟨.inl ⟨by rw [ho]; rfl, by rw [Derivation.count]⟩, hl⟩, ?_⟩
  · rw [List.append_assoc, scanFrom_name hw (by simp; decide), List.append_assoc, List.cons_append,
      scanFrom_mark (by decide) rfl]
    simp only [List.singleton_append, hy, Derivation.yield]
    rw [scanFrom_mark (by decide) rfl]
    simp [byteCount, byteCount_append, Nat.add_assoc]
  · simp [Derivation.image, callImage, ho, he]

/-- The mark of an operation between spaces. -/
theorem scanFrom_between {c : Char} {text : List Char} {kind : Kind} (hb : isBlank c = false)
    (hl : lexeme c (' ' :: text) = (kind, 0)) (pos : Nat) :
    scanFrom pos (' ' :: c :: ' ' :: text) =
      markToken kind c (pos + 1) :: scanFrom (pos + byteCount [' ', c, ' ']) text := by
  rw [scanFrom_space, scanFrom_mark hb hl, scanFrom_space]
  simp [byteCount, Nat.add_assoc]
  rfl

theorem Spells.raised {text text' : List Char} {e e' : Expr α} (h : Spells scope .atom n text e)
    (h' : Spells scope .signed n' text' e') :
    Spells scope .power (max n (n' + 1)) (text ++ (' ' :: '^' :: ' ' :: text'))
      (Expr.ofBinary e .pow e') := by
  intro pos tail ht
  obtain ⟨d, hy, hd, hl, he⟩ := h pos (' ' :: '^' :: ' ' :: (text' ++ tail)) (closed_space _)
  obtain ⟨d', hy', hd', hl', he'⟩ := h' (pos + byteCount text + byteCount [' ', '^', ' ']) tail ht
  have hk : (markToken .caret '^' (pos + byteCount text + 1)).kind = .caret := rfl
  refine ⟨.raised d _ hk d', ?_, ?_, ⟨hl, hl'⟩, ?_⟩
  · simp only [List.append_assoc, List.cons_append]
    rw [hy, scanFrom_between (by decide) rfl, hy']
    simp [Derivation.yield, byteCount, byteCount_append, Nat.add_assoc]
  · simp only [Derivation.depth, Operand.around] at hd hd' ⊢
    omega
  · simp [Derivation.image, he, he']

theorem Spells.joined {link : Link} {op : BinaryOp} {c : Char} {kind : Kind}
    (hj : Joins link kind op) (hb : isBlank c = false)
    (hc : ∀ text, lexeme c (' ' :: text) = (kind, 0)) {text text' : List Char} {e e' : Expr α}
    (h : Spells scope link.whole n text e) (h' : Spells scope link.item n' text' e') :
    Spells scope link.whole (max n n') (text ++ (' ' :: c :: ' ' :: text'))
      (Expr.ofBinary e op e') := by
  intro pos tail ht
  obtain ⟨d, hy, hd, hl, he⟩ := h pos (' ' :: c :: ' ' :: (text' ++ tail)) (closed_space _)
  obtain ⟨d', hy', hd', hl', he'⟩ := h' (pos + byteCount text + byteCount [' ', c, ' ']) tail ht
  obtain ⟨d₀, hy₀, hd₀, hl₀, he₀⟩ :=
    exists_joined (α := α) (t := markToken kind c (pos + byteCount text + 1)) hj d d' hl hl'
  refine ⟨d₀, ?_, ?_, hl₀, by rw [he₀, he, he']⟩
  · simp only [List.append_assoc, List.cons_append]
    rw [hy, scanFrom_between hb (hc _), hy', hy₀]
    simp [byteCount, byteCount_append, Nat.add_assoc]
  · have hwhole : link.whole.around = 0 := by cases link <;> rfl
    have hitem : link.item.around = 0 := by cases link <;> rfl
    omega

end Optima.Formula
