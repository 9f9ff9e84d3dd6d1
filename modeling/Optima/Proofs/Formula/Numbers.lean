import Optima.Formula.Parser
import Optima.Proofs.Formula.Soundness
import Optima.Proofs.Formula.Completeness

/-!
Every token of the kind number reads as a number.

* `isSome_read?_take`: what the scanner takes for a number is one for the reader of decimals.
* `numerals_scan`: so it is for all tokens of a text.
* `Spares`: a reader that never refuses a number among such tokens.
* `spares_signed`: the reader of signed parts is one of these.
-/

namespace Optima.Formula

open Optima.Formula.Parser

/-! ## The text of a number -/

theorem take_digitCount (text : List Char) :
    text.take (digitCount text) = text.takeWhile Char.isDigit :=
  (List.prefix_iff_eq_take.1 (List.takeWhile_prefix _)).symm

theorem all_isDigit_takeWhile (text : List Char) :
    ∀ c ∈ text.takeWhile Char.isDigit, c.isDigit = true := by
  intro c hc
  exact List.all_eq_true.1 (List.all_takeWhile) c hc

theorem takeWhile_ne_nil {text : List Char} (h : startsWithDigit text = true) :
    text.takeWhile Char.isDigit ≠ [] := by
  cases text with
  | nil => cases h
  | cons c text => simp [show c.isDigit = true from h]

theorem leadingDigits_of_append {ds text : List Char} (hd : ∀ c ∈ ds, c.isDigit = true)
    (ht : startsWithDigit text = false) : Decimal.leadingDigits (ds ++ text) = (ds, text) := by
  have hw : text.takeWhile Char.isDigit = [] ∧ text.dropWhile Char.isDigit = text := by
    cases text with
    | nil => exact ⟨rfl, rfl⟩
    | cons c text =>
      have hc : c.isDigit = false := ht
      simp [hc]
  simp [Decimal.leadingDigits, List.takeWhile_append_of_pos hd, List.dropWhile_append_of_pos hd, hw]

theorem drop_digitCount (text : List Char) :
    text.drop (digitCount text) = text.dropWhile Char.isDigit := by
  have h : (text.takeWhile Char.isDigit ++ text.dropWhile Char.isDigit).drop (digitCount text) =
      text.dropWhile Char.isDigit := List.drop_left
  rwa [List.takeWhile_append_dropWhile] at h

/-- A fraction with the digits: nothing, or a point and the digits. -/
inductive IsFraction : List Char → List Char → Prop
  | absent : IsFraction [] []
  | point {ds : List Char} (hd : ∀ c ∈ ds, c.isDigit = true) : IsFraction ds ('.' :: ds)

/-- A power of ten: nothing, or a mark, a sign or none, and digits. -/
inductive IsPower : List Char → Prop
  | absent : IsPower []
  | marked {mark : Char} {sign ds : List Char} (hm : mark = 'e' ∨ mark = 'E')
      (hs : sign = [] ∨ sign = ['+'] ∨ sign = ['-']) (hn : ds ≠ [])
      (hd : ∀ c ∈ ds, c.isDigit = true) : IsPower (mark :: (sign ++ ds))

/-- The digits behind a point, if there is one. -/
def fractionDigits : List Char → List Char
  | '.' :: text => text.takeWhile Char.isDigit
  | _ => []

theorem isFraction_take (text : List Char) :
    IsFraction (fractionDigits text) (text.take (fractionCount text)) := by
  unfold fractionDigits
  split
  · next rest =>
    rw [fractionCount, Nat.add_comm, List.take_succ_cons, take_digitCount]
    exact .point (all_isDigit_takeWhile rest)
  · next hne =>
    rw [fractionCount, List.take_zero]
    · exact .absent
    · exact hne

theorem isPower_take (text : List Char) : IsPower (text.take (powerCount text)) := by
  unfold powerCount
  split
  · exact .absent
  · next mark text =>
    split
    · next hm =>
      split
      · next digits =>
        split
        · next hd =>
          rw [Nat.add_comm, List.take_succ_cons, List.take_succ_cons, take_digitCount]
          exact .marked hm (.inr (.inl rfl)) (takeWhile_ne_nil hd) (all_isDigit_takeWhile digits)
        · exact .absent
      · next digits =>
        split
        · next hd =>
          rw [Nat.add_comm, List.take_succ_cons, List.take_succ_cons, take_digitCount]
          exact .marked hm (.inr (.inr rfl)) (takeWhile_ne_nil hd) (all_isDigit_takeWhile digits)
        · exact .absent
      · split
        · next hd =>
          rw [Nat.add_comm, List.take_succ_cons, take_digitCount]
          exact .marked hm (.inl rfl) (takeWhile_ne_nil hd) (all_isDigit_takeWhile text)
        · exact .absent
    · exact .absent

theorem IsPower.isSome_readPower? {text : List Char} (h : IsPower text) :
    (Decimal.readPower? text).isSome = true := by
  cases h with
  | absent => rfl
  | @marked mark sign ds hm hs hn hd =>
    rcases hs with rfl | rfl | rfl
    · cases ds with
      | nil => exact absurd rfl hn
      | cons d ds =>
        have hp : d ≠ '+' := by
          rintro rfl
          exact absurd (hd '+' (by simp)) (by decide)
        have hq : d ≠ '-' := by
          rintro rfl
          exact absurd (hd '-' (by simp)) (by decide)
        simp only [List.mem_cons, forall_eq_or_imp] at hd
        simp [Decimal.readPower?, hm, hp, hq, hd.1]
        exact hd.2
    · simp [Decimal.readPower?, hm, hn]
      exact hd
    · simp [Decimal.readPower?, hm, hn]
      exact hd

/-- A power of ten goes on with neither digits nor a fraction. -/
theorem IsPower.head {text : List Char} (h : IsPower text) :
    startsWithDigit text = false ∧ text.head? ≠ some '.' := by
  cases h with
  | absent => simp [startsWithDigit]
  | marked hm hs hn hd => rcases hm with rfl | rfl <;> simp [startsWithDigit]

theorem isSome_read? {whole ds fraction power : List Char} (hw : ∀ c ∈ whole, c.isDigit = true)
    (hf : IsFraction ds fraction) (hp : IsPower power) (hne : whole ≠ [] ∨ ds ≠ []) :
    (Decimal.read? (whole ++ (fraction ++ power))).isSome = true := by
  obtain ⟨hd, hdot⟩ := hp.head
  cases hf with
  | absent =>
    have hw₀ : whole ≠ [] := by simpa using hne
    rw [List.nil_append, Decimal.read?, leadingDigits_of_append hw hd]
    simp only
    split
    · next rest => exact absurd rfl hdot
    · simp [hw₀, hp.isSome_readPower?]
  | point hds =>
    have hdots : startsWithDigit ('.' :: ds ++ power) = false := rfl
    rw [Decimal.read?, leadingDigits_of_append hw hdots]
    simp only [List.cons_append, leadingDigits_of_append hds hd]
    have hne' : ¬ (whole.isEmpty = true ∧ ds.isEmpty = true) := by
      rw [List.isEmpty_iff, List.isEmpty_iff]
      rintro ⟨rfl, rfl⟩
      simp at hne
    rw [if_neg hne', Option.isSome_map, hp.isSome_readPower?]

theorem take_numberCount (text : List Char) :
    text.take (numberCount text) =
      text.takeWhile Char.isDigit ++
        ((text.dropWhile Char.isDigit).take (fractionCount (text.dropWhile Char.isDigit)) ++
          (text.drop (digitCount text + fractionCount (text.dropWhile Char.isDigit))).take
            (powerCount
              (text.drop (digitCount text + fractionCount (text.dropWhile Char.isDigit))))) := by
  rw [numberCount, drop_digitCount, List.take_add, List.take_add, take_digitCount, drop_digitCount,
    List.append_assoc]

/-- What the scanner takes for a number is one. -/
theorem isSome_read?_take {c : Char} {text : List Char}
    (h : c.isDigit = true ∨ c = '.' ∧ startsWithDigit text = true) :
    (Decimal.read? ((c :: text).take (numberCount (c :: text)))).isSome = true := by
  rw [take_numberCount]
  refine isSome_read? (all_isDigit_takeWhile _) (isFraction_take _) (isPower_take _) ?_
  rcases h with hc | ⟨rfl, ht⟩
  · exact .inl (takeWhile_ne_nil hc)
  · exact .inr (takeWhile_ne_nil ht)

/-! ## The tokens of a text -/

theorem lexeme_number {c : Char} {text : List Char} (h : (lexeme c text).1 = .number) :
    (c.isDigit = true ∨ c = '.' ∧ startsWithDigit text = true) ∧
      (lexeme c text).2 = numberCount (c :: text) - 1 := by
  unfold lexeme at h ⊢
  split at h
  all_goals try cases h
  · split at h <;> cases h
  · next c _ _ _ _ _ _ _ _ =>
    split at h
    · next hc =>
      rw [if_pos hc]
      simpa using hc
    · split at h <;> cases h

theorem one_le_numberCount {c : Char} {text : List Char}
    (h : c.isDigit = true ∨ c = '.' ∧ startsWithDigit text = true) :
    1 ≤ numberCount (c :: text) := by
  rcases h with hc | ⟨rfl, -⟩
  · simp [numberCount, digitCount, hc]
    omega
  · simp [numberCount, digitCount, fractionCount]
    omega

/-- The characters of a number are as many as the scanner counts. -/
theorem cons_take_number {c : Char} {text : List Char} {more : Nat}
    (h : lexeme c text = (.number, more)) :
    c :: text.take more = (c :: text).take (numberCount (c :: text)) := by
  obtain ⟨hc, hm⟩ := lexeme_number (congrArg Prod.fst h)
  rw [h] at hm
  rw [← Nat.sub_add_cancel (one_le_numberCount hc), List.take_succ_cons, ← hm]

theorem numerals_scanFrom (pos : Nat) (text : List Char) : Numerals (scanFrom pos text) := by
  fun_induction scanFrom pos text with
  | case1 pos => simp [Numerals]
  | case2 pos c text hb ih => exact ih
  | case3 pos c text hb kind more hl chars stop ih =>
    refine numerals_cons.2 ⟨fun hk => ?_, ih⟩
    obtain rfl : kind = .number := hk
    have hchars : chars = (c :: text).take (numberCount (c :: text)) := cons_take_number hl
    rw [String.toList_ofList, hchars]
    exact isSome_read?_take (lexeme_number (congrArg Prod.fst hl)).1

theorem numerals_scan (text : String) : Numerals (scan text) := numerals_scanFrom 0 text.toList

/-! ## Readers -/

section

variable {β : Type} {p : List Token → Prop}

/-- The reading is not refused for a number, and leaves tokens whose numbers read. -/
def Spares (o : Except Error (β × { rest : List Token // p rest })) : Prop :=
  (∀ text, o ≠ .error (.badNumber text)) ∧ ∀ b rest, o = .ok (b, rest) → Numerals rest.1

theorem Spares.ok {b : β} {rest : { rest : List Token // p rest }} (h : Numerals rest.1) :
    Spares (.ok (b, rest)) := by
  refine ⟨fun _ => nofun, fun b' rest' he => ?_⟩
  cases he
  exact h

theorem Spares.error {e : Error} (h : ∀ text, e ≠ .badNumber text) :
    Spares (.error e : Except Error (β × { rest : List Token // p rest })) :=
  ⟨fun text he => h text (Except.error.inj he), fun _ _ => nofun⟩

/-- A reading that stops where a spared one has stopped is spared. -/
theorem Spares.stop {γ : Type} {q : List Token → Prop}
    {o : Except Error (β × { rest : List Token // p rest })} (h : Spares o) {e : Error}
    (he : o = .error e) : Spares (.error e : Except Error (γ × { rest : List Token // q rest })) :=
  .error fun text ht => h.1 text (ht ▸ he)

end

def SparesAll {β : Type} (reader : Reader β) : Prop :=
  ∀ tokens, Numerals tokens → Spares (reader tokens)

theorem Numerals.tail {t : Token} {tokens : List Token} (h : Numerals (t :: tokens)) :
    Numerals tokens :=
  (numerals_cons.1 h).2

theorem unexpected_ne_badNumber (ctx : Context) (expected : Expected) (tokens : List Token)
    (text : String) : Parser.unexpected ctx expected tokens ≠ .badNumber text :=
  Error.noConfusion

theorem spares_expect (ctx : Context) (kind : Kind) : SparesAll (expect ctx kind) := by
  intro tokens hn
  unfold expect
  split
  · next t rest =>
    split
    · exact .ok hn.tail
    · exact .error (unexpected_ne_badNumber ctx _ _)
  · exact .error (unexpected_ne_badNumber ctx _ _)

variable {α : Type}

theorem spares_arguments {item : Reader (Expr α)} (hi : SparesAll item) (tokens : List Token)
    (hn : Numerals tokens) : Spares (arguments item tokens) := by
  fun_induction arguments item tokens with
  | case1 tokens e he => exact (hi tokens hn).stop he
  | case2 tokens arg h he => exact .ok ((hi tokens hn).2 _ _ he)
  | case3 tokens arg t rest h he ht e ha ih => exact (ih ((hi tokens hn).2 _ _ he).tail).stop ha
  | case4 tokens arg t rest h he ht args rest' h' ha ih =>
    exact .ok ((ih ((hi tokens hn).2 _ _ he).tail).2 _ _ ha)
  | case5 tokens arg t rest h he ht => exact .ok ((hi tokens hn).2 _ _ he)

theorem spares_closedArguments (ctx : Context) {item : Reader (Expr α)} (hi : SparesAll item) :
    SparesAll (closedArguments ctx item) := by
  intro tokens hn
  unfold closedArguments
  split
  · split
    · next e he => exact (spares_expect ctx .rightParen tokens hn).stop he
    · next rest he => exact .ok ((spares_expect ctx .rightParen tokens hn).2 _ _ he)
  · split
    · next e he => exact (spares_arguments hi tokens hn).stop he
    · next args rest h he =>
      have hr := (spares_arguments hi tokens hn).2 _ _ he
      split
      · next e hx => exact (spares_expect ctx .rightParen rest hr).stop hx
      · next rest' h' hx => exact .ok ((spares_expect ctx .rightParen rest hr).2 _ _ hx)

variable [Scalar α]

theorem spares_chainFrom (op? : Kind → Option BinaryOp) {item : Reader (Expr α)}
    (hi : SparesAll item) (left : Expr α) (tokens : List Token) (hn : Numerals tokens) :
    Spares (chainFrom op? item left tokens) := by
  fun_induction chainFrom op? item left tokens with
  | case1 left => exact .ok hn
  | case2 left t tokens ht => exact .ok hn
  | case3 left t tokens op ht e he => exact (hi tokens hn.tail).stop he
  | case4 left t tokens op ht right rest h he e hc ih =>
    exact (ih ((hi tokens hn.tail).2 _ _ he)).stop hc
  | case5 left t tokens op ht right rest h he e rest' h' hc ih =>
    exact .ok ((ih ((hi tokens hn.tail).2 _ _ he)).2 _ _ hc)

theorem spares_chain (op? : Kind → Option BinaryOp) {item : Reader (Expr α)}
    (hi : SparesAll item) : SparesAll (chain op? item) := by
  intro tokens hn
  unfold chain
  split
  · next e he => exact (hi tokens hn).stop he
  · next left rest h he =>
    have hc := spares_chainFrom op? hi left rest ((hi tokens hn).2 _ _ he)
    split
    · next e hx => exact hc.stop hx
    · next e rest' h' hx => exact .ok (hc.2 _ _ hx)

theorem spares_sum {part : Reader (Expr α)} (hp : SparesAll part) : SparesAll (sum part) :=
  spares_chain sumOp? (spares_chain productOp? hp)

theorem number_eq_ok {text : String} (h : (Decimal.read? text.toList).isSome = true) :
    ∃ e : Expr α, number text = .ok e := by
  obtain ⟨d, hd⟩ := Option.isSome_iff_exists.1 h
  exact ⟨.const d.toScalar, by simp [number, hd]⟩

theorem name_ne_badNumber (ctx : Context) (t : Token) (text : String) :
    (Parser.name ctx t : Except Error (Expr α)) ≠ .error (.badNumber text) :=
  fun h => Error.noConfusion (name_eq_error h)

theorem apply_ne_badNumber (t : Token) (args : List (Expr α)) (text : String) :
    Parser.apply t args ≠ .error (.badNumber text) := by
  intro h
  rcases apply_eq_error h with ⟨_, h⟩ | h <;> cases h

theorem spares_atom (ctx : Context) {part : Reader (Expr α)} (hp : SparesAll part) :
    SparesAll (atom ctx part) := by
  intro tokens hn
  unfold atom
  split
  · exact .error (unexpected_ne_badNumber ctx .operand [])
  · next t tokens =>
    split
    · next hk =>
      obtain ⟨e, he⟩ := number_eq_ok (α := α) ((numerals_cons.1 hn).1 hk)
      rw [he]
      exact .ok hn.tail
    · split
      · next _ span text tokens' =>
        have hc := spares_closedArguments ctx (spares_sum hp) tokens' hn.tail.tail
        split
        · next e he => exact hc.stop he
        · next args rest h he =>
          split
          · next e hx =>
            exact .error fun text ht => apply_ne_badNumber t args text (ht ▸ hx)
          · exact .ok (hc.2 _ _ he)
      · split
        · next e hx => exact .error fun text ht => name_ne_badNumber ctx t text (ht ▸ hx)
        · exact .ok hn.tail
    · have hs := spares_sum hp tokens hn.tail
      split
      · next e he => exact hs.stop he
      · next e rest h he =>
        have hx := spares_expect ctx .rightParen rest (hs.2 _ _ he)
        split
        · next e' he' => exact hx.stop he'
        · next rest' h' he' => exact .ok (hx.2 _ _ he')
    · exact .error (unexpected_ne_badNumber ctx .operand _)

theorem spares_power (ctx : Context) {part : Reader (Expr α)} (hp : SparesAll part) :
    SparesAll (power ctx part) := by
  intro tokens hn
  have ha := spares_atom ctx hp tokens hn
  unfold power
  split
  · next e he => exact ha.stop he
  · next base span text rest h he =>
    have hs := hp rest (ha.2 _ _ he).tail
    split
    · next e hx => exact hs.stop hx
    · next e rest' h' hx => exact .ok (hs.2 _ _ hx)
  · next base rest _ he => exact .ok (ha.2 _ _ he)

theorem spares_signed (ctx : Context) (room : Nat) :
    SparesAll (signed ctx room : Reader (Expr α)) := by
  induction room with
  | zero => exact fun _ _ => .error fun _ => nofun
  | succ room ih =>
    intro tokens hn
    unfold signed signedWith
    split
    · next span text tokens =>
      have hs := ih tokens hn.tail
      split
      · next e he => exact hs.stop he
      · next e rest h he => exact .ok (hs.2 _ _ he)
    · next span text tokens =>
      have hs := ih tokens hn.tail
      split
      · next e he => exact hs.stop he
      · next e rest h he => exact .ok (hs.2 _ _ he)
    · exact spares_power ctx ih tokens hn

end Optima.Formula
