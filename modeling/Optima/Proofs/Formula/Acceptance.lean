import Optima.Proofs.Formula.Numbers
import Optima.Proofs.Formula.Unambiguity

/-!
The parser accepts the grammar.

* `parse_of_derivation`: a text with a legible derivation reads as its image, if the derivation is
  not too deep; if it is, the text is refused for its depth.
* `derivation_of_parse`: what a text reads as is the image of a derivation.
* `parse_eq_ok_iff`: both directions, with one derivation at most and no number refused.
-/

namespace Optima.Formula

open Optima.Formula.Parser

variable {α : Type} [Scalar α]

theorem parse_of_derivation {scope : Scope} {text : String} {d : Derivation (.operand .sum)}
    (hy : d.yield = scan text) (hl : d.Legible scope) :
    if d.depth ≤ maxDepth then (parse scope text : Except Error (Expr α)) = .ok (d.image scope)
    else ∃ span, (parse scope text : Except Error (Expr α)) = .error (.tooDeep maxDepth span) := by
  have hn : Numerals d.yield := hy ▸ numerals_scan text
  have h := completes (α := α) ⟨scope, text.utf8ByteSize⟩ d hl hn maxDepth [] (follows_nil _)
  rw [List.append_nil, hy] at h
  split
  · next hd =>
    rcases h with ⟨-, hlt, h⟩ | ⟨hd', -⟩
    · simp only [operandReader] at h
      simp [parse, parseTokens, h]
    · exact absurd hd hd'
  · next hd =>
    rcases h with ⟨hd', -⟩ | ⟨-, span, h⟩
    · exact absurd hd' hd
    · simp only [operandReader] at h
      exact ⟨span, by simp [parse, parseTokens, h]⟩

theorem derivation_of_parse {scope : Scope} {text : String} {e : Expr α}
    (h : parse scope text = .ok e) :
    ∃ d : Derivation (.operand .sum), d.yield = scan text ∧ d.depth ≤ maxDepth ∧
      d.Legible scope ∧ d.image scope = e := by
  unfold parse parseTokens at h
  split at h
  · cases h
  · next e' hlt he =>
    cases h
    obtain ⟨d, hy, hd, hl, hi⟩ := sound_sum (sound_signed _ _) _ _ _ he
    exact ⟨d, by simpa using hy, hd, hl, hi⟩
  · cases h

theorem parse_ne_badNumber (scope : Scope) (text number : String) :
    (parse scope text : Except Error (Expr α)) ≠ .error (.badNumber number) := by
  have hs := spares_sum (α := α) (spares_signed ⟨scope, text.utf8ByteSize⟩ maxDepth) (scan text)
    (numerals_scan text)
  intro h
  unfold parse parseTokens at h
  split at h
  · next e he =>
    cases h
    exact hs.1 number he
  · cases h
  · cases h

/-- A text reads as an expression exactly if the tokens before the end mark have a derivation that
is legible in the scope and not too deep, and the expression is its image. There is no second
derivation, and every number among the tokens reads. -/
theorem parse_eq_ok_iff (scope : Scope) (text : String) :
    (∀ e : Expr α, parse scope text = .ok e ↔
      ∃ d : Derivation (.operand .sum), tokenize text = d.yield ++ [endMark text] ∧
        d.depth ≤ maxDepth ∧ d.Legible scope ∧ d.image scope = e) ∧
    (∀ d d' : Derivation (.operand .sum), tokenize text = d.yield ++ [endMark text] →
      tokenize text = d'.yield ++ [endMark text] → d = d') ∧
    (∀ t ∈ tokenize text, t.kind = .number → (Decimal.read? t.text.toList).isSome = true) ∧
    ∀ number, (parse scope text : Except Error (Expr α)) ≠ .error (.badNumber number) := by
  have hy (d : Derivation (.operand .sum)) :
      tokenize text = d.yield ++ [endMark text] ↔ d.yield = scan text := by
    rw [tokenize, List.append_cancel_right_eq, eq_comm]
  refine ⟨fun e => ⟨fun h => ?_, ?_⟩, fun d d' h h' => ?_, fun t ht hk => ?_,
    parse_ne_badNumber scope text⟩
  · obtain ⟨d, hd, hdepth, hl, hi⟩ := derivation_of_parse h
    exact ⟨d, (hy d).2 hd, hdepth, hl, hi⟩
  · rintro ⟨d, hd, hdepth, hl, rfl⟩
    have h := parse_of_derivation (α := α) ((hy d).1 hd) hl
    rwa [if_pos hdepth] at h
  · exact Derivation.yield_injective (((hy d).1 h).trans ((hy d').1 h').symm)
  · rcases List.mem_append.1 ht with ht | ht
    · exact numerals_scan text t ht hk
    · rw [List.mem_singleton.1 ht] at hk
      cases hk

end Optima.Formula
