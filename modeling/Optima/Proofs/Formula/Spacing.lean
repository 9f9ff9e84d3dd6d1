import Mathlib.Logic.Function.Basic
import Optima.Proofs.Formula.Partition
import Optima.Proofs.Formula.Relocation

/-!
Tokens stay what they are when the text between them is a single space.

* `lexeme_take`: in front of a closed text the characters of a token are cut to this token again.
* `Token.Stands`: the token is cut from its own text; `stands_of_mem_scanFrom`: every token of a text
  stands.
* `respaced`: the texts of the tokens with single spaces between them; `bare_tokenize_respaced`: it
  has the same tokens, apart from their places.
* `exists_moved`: spans of tokens are different, so one map takes each to where it has been.
* `parse_respaced`: so the text is read as before, and an error shows the same token.
-/

namespace Optima.Formula

open Text

/-! ## The token of a text in front of a closed one -/

theorem Closed.head?_ne_star {tail : List Char} (ht : Closed tail) : tail.head? ≠ some '*' := by
  intro h
  rcases ht '*' h with h | h <;> exact absurd h (by decide)

/-- What is scanned as a number is scanned as one of the same length in front of a closed text. -/
theorem numberCount_take_append {tail : List Char} (ht : Closed tail) (text : List Char) :
    numberCount (text.take (numberCount text) ++ tail) = (text.take (numberCount text)).length := by
  rw [take_numberCount]
  exact numberCount_append (all_isDigit_takeWhile text) (isFraction_take _) (isPower_take _) ht

/-- A number reaches to the first digit behind its point. -/
theorem two_le_numberCount {text : List Char} (h : startsWithDigit text = true) :
    2 ≤ numberCount ('.' :: text) := by
  have hd : 0 < digitCount text := List.length_pos_iff.2 (takeWhile_ne_nil h)
  have hcount : numberCount ('.' :: text) =
      0 + (1 + digitCount text) + powerCount (text.drop (digitCount text)) := by
    simp [numberCount, digitCount, fractionCount, Nat.add_comm 1]
  omega

theorem startsWithDigit_take {text tail : List Char} {n : Nat} (h : startsWithDigit text = true)
    (hn : 1 ≤ n) : startsWithDigit (text.take n ++ tail) = true := by
  cases text with
  | nil => cases h
  | cons d text =>
    rw [← Nat.sub_add_cancel hn, List.take_succ_cons]
    exact h

theorem lexeme_of_number {c : Char} {text : List Char}
    (h : c.isDigit = true ∨ c = '.' ∧ startsWithDigit text = true) :
    lexeme c text = (.number, numberCount (c :: text) - 1) := by
  rcases h with hd | ⟨rfl, hd⟩
  · exact lexeme_digit hd text
  · simp [lexeme, hd]

theorem lexeme_take_number {tail : List Char} (ht : Closed tail) {c : Char} {text : List Char}
    {more : Nat} (h : lexeme c text = (.number, more)) :
    lexeme c (text.take more ++ tail) = (.number, (text.take more).length) := by
  obtain ⟨hstart, hmore⟩ := lexeme_number (congrArg Prod.fst h)
  rw [h] at hmore
  have hcount := numberCount_take_append ht (c :: text)
  rw [← cons_take_number h, List.cons_append, List.length_cons] at hcount
  rw [lexeme_of_number, hcount, Nat.add_sub_cancel]
  refine hstart.imp_right fun ⟨hc, hd⟩ => ⟨hc, startsWithDigit_take hd ?_⟩
  subst hc
  have htwo := two_le_numberCount hd
  omega

theorem lexeme_take_ident {tail : List Char} (ht : Closed tail) {c : Char} {text : List Char}
    {more : Nat} (h : lexeme c text = (.ident, more)) :
    lexeme c (text.take more ++ tail) = (.ident, (text.take more).length) := by
  rw [lexeme_ident (congrArg Prod.fst h), take_ident h,
    wordCount_append (fun d hd => ?_) ht.not_wordChar]
  exact List.all_eq_true.1 List.all_takeWhile d hd

/-- In front of a closed text the characters of a token are scanned to their end, and not further. -/
theorem lexeme_take {tail : List Char} (ht : Closed tail) {c : Char} {text : List Char}
    {kind : Kind} {more : Nat} (h : lexeme c text = (kind, more)) :
    lexeme c (text.take more ++ tail) = (kind, (text.take more).length) := by
  by_cases hn : kind = .number
  · subst hn
    exact lexeme_take_number ht h
  by_cases hi : kind = .ident
  · subst hi
    exact lexeme_take_ident ht h
  unfold lexeme at h ⊢
  split at h
  case h_3 =>
    -- Only a star can make more of a star, and no closed text begins with one.
    split at h
    · next hs =>
      cases h
      obtain ⟨rest, rfl⟩ := List.head?_eq_some_iff.1 hs
      rfl
    · cases h
      exact if_neg ht.head?_ne_star
  case h_9 =>
    split at h
    · exact absurd (congrArg Prod.fst h).symm hn
    · next hc =>
      split at h
      · exact absurd (congrArg Prod.fst h).symm hi
      · next hw =>
        cases h
        rw [Bool.or_eq_true, not_or] at hc
        simp [hc.1, hw, ht.startsWithDigit]
  all_goals
    cases h
    rfl

/-! ## Tokens that stand -/

/-- The token is cut from its own text, wherever that is in front of a closed one. -/
def Token.Stands (t : Token) : Prop :=
  ∀ pos tail, Closed tail →
    scanFrom pos (t.text.toList ++ tail) =
      ⟨t.kind, ⟨pos, pos + byteCount t.text.toList⟩, t.text⟩ ::
        scanFrom (pos + byteCount t.text.toList) tail

theorem stands_of_mem_scanFrom (pos : Nat) (text : List Char) :
    ∀ t ∈ scanFrom pos text, t.Stands := by
  fun_induction scanFrom pos text with
  | case1 pos => exact List.forall_mem_nil _
  | case2 pos c text hb ih => exact ih
  | case3 pos c text hb kind more hl chars stop ih =>
    refine List.forall_mem_cons.2 ⟨fun pos' tail ht => ?_, ih⟩
    rw [String.toList_ofList]
    exact scanFrom_word (Bool.eq_false_iff.2 hb) (lexeme_take ht hl) pos'

/-- What is left of a token without its place. -/
def Token.bare (t : Token) : Kind × String := (t.kind, t.text)

/-- The induction is on the tokens; behind each of them there is a space or nothing. -/
theorem bare_scanFrom_intercalate {tokens : List Token} (h : ∀ t ∈ tokens, t.Stands) (pos : Nat) :
    (scanFrom pos ([' '].intercalate (tokens.map fun t => t.text.toList))).map Token.bare =
      tokens.map Token.bare := by
  induction tokens generalizing pos with
  | nil => rw [List.map_nil, List.intercalate_nil, scanFrom]
  | cons t tokens ih =>
    obtain ⟨ht, hrest⟩ := List.forall_mem_cons.1 h
    cases tokens with
    | nil =>
      have hs := ht pos [] closed_nil
      rw [List.append_nil, scanFrom] at hs
      rw [List.map_cons, List.map_nil, List.intercalate_singleton, hs]
      rfl
    | cons u tokens =>
      have hspace : [' '].intercalate ((t :: u :: tokens).map fun t => t.text.toList) =
          t.text.toList ++ ' ' :: [' '].intercalate ((u :: tokens).map fun t => t.text.toList) := by
        rw [List.map_cons, List.map_cons, List.intercalate_cons_cons, List.append_assoc]
        rfl
      rw [hspace, ht pos _ (closed_space _), scanFrom_space, List.map_cons, ih hrest]
      rfl

/-! ## Texts with single spaces -/

/-- The texts of the tokens with single spaces between them. -/
def respaced (text : String) : String := " ".intercalate ((scan text).map Token.text)

theorem bare_tokenize_respaced (text : String) :
    (tokenize (respaced text)).map Token.bare = (tokenize text).map Token.bare := by
  have hlist : (respaced text).toList =
      [' '].intercalate ((scan text).map fun t => t.text.toList) := by
    rw [respaced, String.toList_intercalate, List.map_map]
    rfl
  have hscan : (scan (respaced text)).map Token.bare = (scan text).map Token.bare := by
    rw [scan, hlist]
    exact bare_scanFrom_intercalate (stands_of_mem_scanFrom 0 text.toList) 0
  rw [tokenize, tokenize, List.map_append, List.map_append, hscan]
  rfl

/-! ## Places of tokens -/

theorem nodup_spans (text : String) : ((tokenize text).map Token.span).Nodup := by
  have hp := partitions_scan text
  rw [List.Nodup, List.pairwise_map, tokenize, List.pairwise_append]
  refine ⟨hp.ordered.imp_of_mem fun {t u} ht _ hle heq => ?_, List.pairwise_singleton _ _,
    fun t ht u hu heq => ?_⟩
  · have hlt := hp.nonempty t ht
    rw [← heq] at hle
    exact Nat.not_lt.2 hle hlt
  · have hlt := hp.nonempty t ht
    rw [heq, List.mem_singleton.1 hu] at hlt
    exact Nat.lt_irrefl _ hlt

/-- Where spans are different, they can be moved to those of tokens that are the same otherwise. -/
theorem exists_moved {tokens tokens' : List Token} (hs : (tokens.map Token.span).Nodup)
    (hb : tokens.map Token.bare = tokens'.map Token.bare) :
    ∃ move : Span → Span, tokens.map (Token.moved move) = tokens' := by
  induction tokens generalizing tokens' with
  | nil => exact ⟨id, (List.map_eq_nil_iff.1 hb.symm).symm⟩
  | cons t tokens ih =>
    cases tokens' with
    | nil => cases hb
    | cons u tokens' =>
      rw [List.map_cons, List.map_cons, List.cons.injEq] at hb
      rw [List.map_cons, List.nodup_cons] at hs
      obtain ⟨move, hmove⟩ := ih hs.2 hb.2
      refine ⟨Function.update move t.span u.span, List.cons_eq_cons.2 ⟨?_, ?_⟩⟩
      · have hkind : t.kind = u.kind := congrArg Prod.fst hb.1
        have htext : t.text = u.text := congrArg Prod.snd hb.1
        rw [Token.moved, Function.update_self, hkind, htext]
      · rw [← hmove]
        refine List.map_congr_left fun t' ht' => ?_
        have hne : t'.span ≠ t.span := fun h => hs.1 (h ▸ List.mem_map_of_mem ht')
        rw [Token.moved, Function.update_of_ne hne, Token.moved]

/-- The tokens of a text stay the same, apart from their places, when the text between them is made
a single space. In every scope it is then read as the same expression, or refused with the same
error, which shows the place of the same token. -/
theorem parse_respaced {α : Type} [Scalar α] (text : String) :
    (tokenize (respaced text)).map Token.bare = (tokenize text).map Token.bare ∧
      ∃ move : Span → Span, (tokenize (respaced text)).map (Token.moved move) = tokenize text ∧
        ∀ scope : Scope, (parse scope text : Except Error (Expr α)) =
          (parse scope (respaced text)).mapError (Error.moved move) := by
  have hbare := bare_tokenize_respaced text
  obtain ⟨move, hmove⟩ := exists_moved (nodup_spans _) hbare
  refine ⟨hbare, move, hmove, fun scope => ?_⟩
  rw [tokenize, tokenize, List.map_append] at hmove
  obtain ⟨hscan, hend⟩ := List.append_inj' hmove rfl
  have hstop := congrArg Token.span (List.singleton_inj.1 hend)
  rw [parse, ← hscan]
  exact parseTokens_moved scope hstop (scan (respaced text))

example : respaced "2ex**y- 1..5e+" = "2 ex ** y - 1. .5 e +" := by decide +kernel

end Optima.Formula
