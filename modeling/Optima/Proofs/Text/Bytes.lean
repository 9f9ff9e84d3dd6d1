import Mathlib.Tactic.SplitIfs

/-!
The order of texts by their bytes in UTF-8.

* `utf8`: the bytes of a text.
* `encode_lt_encode`: of two characters the one with the smaller code point has the smaller bytes,
  whatever stands behind them; neither encoding begins with the other.
* `utf8_lt_utf8_iff`: so texts are ordered by their bytes as they are by their characters.
-/

namespace Optima.Text

/-- The bytes of a text. -/
def utf8 (text : String) : List UInt8 := text.toUTF8.data.toList

theorem utf8_eq (text : String) : utf8 text = text.toList.flatMap String.utf8EncodeChar := by
  have hbytes : text.toUTF8 = (String.ofList text.toList).toByteArray :=
    congrArg String.toByteArray String.ofList_toList.symm
  rw [utf8, hbytes, String.toByteArray_ofList]
  exact List.toList_data_toByteArray

/-- Division by a power of 64 as one by 64 after the other. -/
theorem div_by_sixty_four (v : Nat) : v / 4096 = v / 64 / 64 ∧ v / 262144 = v / 64 / 64 / 64 := by
  simp only [Nat.div_div_eq_div_mul, and_self, Nat.reduceMul]

/-- The first byte tells how many bytes there are, and grows with their number. -/
theorem encode_lt_encode {c d : Char} (h : c < d) (cs ds : List UInt8) :
    String.utf8EncodeChar c ++ cs < String.utf8EncodeChar d ++ ds := by
  have hlt : c.val.toNat < d.val.toNat := h
  have hbound : d.val.toNat < 1114112 := by
    rcases d.valid with hd | hd
    · exact Nat.lt_trans hd (by decide)
    · exact hd.2
  unfold String.utf8EncodeChar
  generalize c.val.toNat = v at hlt ⊢
  generalize d.val.toNat = w at hlt hbound ⊢
  simp only [(div_by_sixty_four _).1, (div_by_sixty_four _).2]
  split_ifs <;>
    simp only [List.cons_append, List.nil_append, List.cons_lt_cons_iff, UInt8.lt_iff_toNat_lt,
      ← UInt8.toNat_inj, UInt8.toNat_ofNat'] <;> omega

theorem append_lt_append_iff (front cs ds : List UInt8) : front ++ cs < front ++ ds ↔ cs < ds := by
  induction front with
  | nil => rfl
  | cons b front ih =>
    rw [List.cons_append, List.cons_append, List.cons_lt_cons_iff, ih]
    simp

theorem flatMap_encode_lt_iff (cs ds : List Char) :
    cs.flatMap String.utf8EncodeChar < ds.flatMap String.utf8EncodeChar ↔ cs < ds := by
  induction cs generalizing ds with
  | nil =>
    cases ds with
    | nil => exact iff_of_false (List.not_lt_nil _) (List.not_lt_nil _)
    | cons d ds =>
      refine iff_of_true ?_ (List.nil_lt_cons d ds)
      obtain ⟨b, bs, hd⟩ := List.exists_cons_of_ne_nil (@String.utf8EncodeChar_ne_nil d)
      rw [List.flatMap_cons, hd]
      exact List.nil_lt_cons ..
  | cons c cs ih =>
    cases ds with
    | nil => exact iff_of_false (List.not_lt_nil _) (List.not_lt_nil _)
    | cons d ds =>
      rw [List.flatMap_cons, List.flatMap_cons, List.cons_lt_cons_iff]
      rcases Std.lt_trichotomy c d with h | rfl | h
      · exact iff_of_true (encode_lt_encode h _ _) (.inl h)
      · rw [append_lt_append_iff, ih]
        exact ⟨fun h => .inr ⟨rfl, h⟩, fun h => (h.resolve_left Std.lt_irrefl).2⟩
      · refine iff_of_false (List.lt_asymm (encode_lt_encode h _ _)) ?_
        rintro (hlt | ⟨rfl, -⟩)
        · exact Std.lt_irrefl (Std.lt_trans h hlt)
        · exact Std.lt_irrefl h

/-- Texts are ordered by their bytes as they are by their characters. -/
theorem utf8_lt_utf8_iff {s t : String} : utf8 s < utf8 t ↔ s < t := by
  rw [utf8_eq, utf8_eq]
  exact flatMap_encode_lt_iff s.toList t.toList

end Optima.Text
