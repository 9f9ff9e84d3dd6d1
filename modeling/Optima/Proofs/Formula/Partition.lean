import Mathlib.Data.String.Basic
import Optima.Proofs.Formula.Spelling

/-!
Cutting a text into tokens loses nothing.

* `Tiles`: tokens with gaps of blanks in front of them and behind them make up a text;
  `tiles_scanFrom`: those that are cut from a text do.
* `Span.Slices`: a span begins and ends between characters of a text, and the bytes in it are those
  of a piece.
* `Partitions`: the spans of tokens are slices of the text that do not overlap, and outside of them
  there are only blanks.
* `tokenize_partitions`: so it is with the tokens of every text, which can be put together again.
-/

namespace Optima.Formula

open Text

/-! ## Tokens and gaps -/

/-- The tokens, with gaps of blanks in front of them and behind the last one, make up a text whose
first character stands at byte `pos`. -/
inductive Tiles : (pos : Nat) → List Char → List Token → Prop
  | blanks {pos : Nat} {gap : List Char} (hg : ∀ c ∈ gap, isBlank c = true) : Tiles pos gap []
  | token {pos : Nat} {gap word rest : List Char} {kind : Kind} {tokens : List Token}
      (hg : ∀ c ∈ gap, isBlank c = true) (hk : kind ≠ .eof) (hw : word ≠ [])
      (h : Tiles (pos + byteCount gap + byteCount word) rest tokens) :
      Tiles pos (gap ++ (word ++ rest))
        (⟨kind, ⟨pos + byteCount gap, pos + byteCount gap + byteCount word⟩,
          String.ofList word⟩ :: tokens)

/-- A blank in front of a text makes its first gap longer. -/
theorem Tiles.cons_blank {pos : Nat} {c : Char} {text : List Char} {tokens : List Token}
    (hc : isBlank c = true) (h : Tiles (pos + c.utf8Size) text tokens) :
    Tiles pos (c :: text) tokens := by
  cases h with
  | blanks hg => exact .blanks (List.forall_mem_cons.2 ⟨hc, hg⟩)
  | @token _ gap word rest kind tokens hg hk hw h =>
    have hpos : pos + c.utf8Size + byteCount gap = pos + byteCount (c :: gap) := by
      rw [byteCount, Nat.add_assoc]
    rw [hpos] at h ⊢
    exact .token (List.forall_mem_cons.2 ⟨hc, hg⟩) hk hw h

theorem lexeme_ne_eof (c : Char) (text : List Char) : (lexeme c text).1 ≠ .eof := by
  unfold lexeme
  repeat' split
  all_goals nofun

theorem tiles_scanFrom (pos : Nat) (text : List Char) : Tiles pos text (scanFrom pos text) := by
  fun_induction scanFrom pos text with
  | case1 pos => exact .blanks (List.forall_mem_nil _)
  | case2 pos c text hb ih => exact ih.cons_blank hb
  | case3 pos c text hb kind more hl chars stop ih =>
    have hk : kind ≠ .eof := by
      rw [show kind = (lexeme c text).1 by rw [hl]]
      exact lexeme_ne_eof c text
    have hword : c :: text = chars ++ text.drop more :=
      congrArg (c :: ·) (List.take_append_drop more text).symm
    rw [hword]
    exact @Tiles.token _ [] _ _ _ _ (List.forall_mem_nil _) hk (List.cons_ne_nil _ _) ih

/-! ## Bytes -/

theorem byteCount_eq (text : List Char) : byteCount text = (String.ofList text).utf8ByteSize := by
  rw [String.utf8ByteSize_ofList]
  induction text with
  | nil => rfl
  | cons c text ih => rw [byteCount, ih, String.utf8Len_cons, Nat.add_comm]

theorem byteCount_pos {text : List Char} (h : text ≠ []) : 0 < byteCount text := by
  cases text with
  | nil => exact absurd rfl h
  | cons c text =>
    have hc := c.utf8Size_pos
    rw [byteCount]
    omega

/-- The span can be cut out of the text, and `piece` is what comes of it: the span begins and ends
between characters, and the bytes in it are those of the piece. -/
structure Span.Slices (text : String) (span : Span) (piece : String) : Prop where
  start_le : span.start ≤ span.stop
  start_valid : String.Pos.Raw.IsValid text ⟨span.start⟩
  stop_valid : String.Pos.Raw.IsValid text ⟨span.stop⟩
  bytes_eq : text.toByteArray.extract span.start span.stop = piece.toByteArray

theorem slices_append (before piece after : String) :
    Span.Slices (before ++ (piece ++ after))
      ⟨before.utf8ByteSize, before.utf8ByteSize + piece.utf8ByteSize⟩ piece where
  start_le := Nat.le_add_right _ _
  start_valid := String.Pos.Raw.isValid_iff_exists_append.2 ⟨before, piece ++ after, rfl, rfl⟩
  stop_valid := by
    refine String.Pos.Raw.isValid_iff_exists_append.2 ⟨before ++ piece, after, ?_, ?_⟩
    · rw [String.append_assoc]
    · rw [String.Pos.Raw.ext_iff, String.byteIdx_rawEndPos, String.utf8ByteSize_append]
  bytes_eq := by
    have hstop : before.utf8ByteSize + piece.utf8ByteSize =
        (before.toByteArray ++ piece.toByteArray).size := by
      rw [ByteArray.size_append, String.size_toByteArray, String.size_toByteArray]
    dsimp only
    rw [← String.append_assoc, String.toByteArray_append, String.toByteArray_append, hstop,
      ByteArray.extract_append_size_left]
    exact ByteArray.extract_append_eq_right String.size_toByteArray.symm ByteArray.size_append

/-- The slice of a word between other characters. -/
theorem slices_word (before word after : List Char) :
    Span.Slices (String.ofList (before ++ (word ++ after)))
      ⟨byteCount before, byteCount before + byteCount word⟩ (String.ofList word) := by
  rw [byteCount_eq, byteCount_eq, String.ofList_append, String.ofList_append]
  exact slices_append _ _ _

/-! ## What tiles a text -/

namespace Tiles

variable {pos : Nat} {text : List Char} {tokens : List Token}

theorem ne_eof (h : Tiles pos text tokens) : ∀ t ∈ tokens, t.kind ≠ .eof := by
  induction h with
  | blanks hg => exact List.forall_mem_nil _
  | token hg hk hw h ih => exact List.forall_mem_cons.2 ⟨hk, ih⟩

theorem start_lt_stop (h : Tiles pos text tokens) : ∀ t ∈ tokens, t.span.start < t.span.stop := by
  induction h with
  | blanks hg => exact List.forall_mem_nil _
  | token hg hk hw h ih =>
    exact List.forall_mem_cons.2 ⟨Nat.lt_add_of_pos_right (byteCount_pos hw), ih⟩

theorem le_start (h : Tiles pos text tokens) : ∀ t ∈ tokens, pos ≤ t.span.start := by
  induction h with
  | blanks hg => exact List.forall_mem_nil _
  | @token pos gap word rest kind tokens hg hk hw h ih =>
    refine List.forall_mem_cons.2 ⟨Nat.le_add_right _ _, fun t ht => ?_⟩
    have hle := ih t ht
    omega

theorem ordered (h : Tiles pos text tokens) :
    tokens.Pairwise fun t u => t.span.stop ≤ u.span.start := by
  induction h with
  | blanks hg => exact .nil
  | token hg hk hw h ih => exact .cons h.le_start ih

/-- The induction goes along the tokens; what has been cut so far stands in front of the rest. -/
theorem slices (h : Tiles pos text tokens) (before : List Char) (hb : pos = byteCount before) :
    ∀ t ∈ tokens, t.span.Slices (String.ofList (before ++ text)) t.text := by
  induction h generalizing before with
  | blanks hg => exact List.forall_mem_nil _
  | @token pos gap word rest kind tokens hg hk hw h ih =>
    subst hb
    have hnext : before ++ (gap ++ (word ++ rest)) = before ++ gap ++ word ++ rest := by
      simp only [List.append_assoc]
    refine List.forall_mem_cons.2 ⟨?_, ?_⟩
    · rw [← byteCount_append, ← List.append_assoc]
      exact slices_word (before ++ gap) word rest
    · rw [hnext]
      exact ih _ (by rw [byteCount_append, byteCount_append])

/-- A character that no span covers stands in a gap. -/
theorem isBlank_of_uncovered (h : Tiles pos text tokens) (before : List Char) {after : List Char}
    {c : Char} (hs : text = before ++ c :: after)
    (hc : ∀ t ∈ tokens, ¬ (t.span.start ≤ pos + byteCount before ∧
      pos + byteCount before < t.span.stop)) : isBlank c = true := by
  induction h generalizing before with
  | blanks hg => exact hg c (by simp [hs])
  | @token pos gap word rest kind tokens hg hk hw h ih =>
    obtain ⟨hword, hrest⟩ := List.forall_mem_cons.1 hc
    rcases List.append_eq_append_iff.1 hs with ⟨inner, rfl, hs'⟩ | ⟨tail, rfl, hs'⟩
    · rcases List.append_eq_append_iff.1 hs' with ⟨inner', rfl, hs''⟩ | ⟨tail, rfl, hs''⟩
      · -- The character stands behind the first word.
        refine ih _ hs'' fun t ht hcov => hrest t ht ?_
        simp only [byteCount_append] at hcov ⊢
        omega
      · cases tail with
        | nil =>
          refine ih [] hs''.symm fun t ht hcov => hrest t ht ?_
          simp only [byteCount_append, byteCount, List.append_nil] at hcov ⊢
          omega
        | cons d tail =>
          -- It stands in the word, which its span covers.
          refine absurd ?_ hword
          have hd := d.utf8Size_pos
          simp only [byteCount_append, byteCount]
          omega
    · cases tail with
      | nil =>
        obtain ⟨d, word, rfl⟩ := List.exists_cons_of_ne_nil hw
        refine absurd ?_ hword
        have hd := d.utf8Size_pos
        simp only [List.append_nil, byteCount]
        omega
      | cons d tail =>
        cases hs'
        exact hg c (by simp)

/-- The texts of the tokens with the gaps in front of them, and the gap behind the last one. -/
theorem exists_gaps (h : Tiles pos text tokens) :
    ∃ (gaps : List String) (last : String), gaps.length = tokens.length ∧
      (∀ gap ∈ last :: gaps, ∀ c ∈ gap.toList, isBlank c = true) ∧
      String.ofList text = String.join (List.zipWith (fun gap t => gap ++ t.text) gaps tokens) ++
        last := by
  induction h with
  | @blanks pos gap hg =>
    refine ⟨[], String.ofList gap, rfl, ?_, ?_⟩
    · simpa using hg
    · simp
  | @token pos gap word rest kind tokens hg hk hw h ih =>
    obtain ⟨gaps, last, hlen, hblank, hjoin⟩ := ih
    refine ⟨String.ofList gap :: gaps, last, congrArg Nat.succ hlen, ?_, ?_⟩
    · rw [List.forall_mem_cons] at hblank ⊢
      exact ⟨hblank.1, List.forall_mem_cons.2 ⟨by simpa using hg, hblank.2⟩⟩
    · rw [String.ofList_append, String.ofList_append, hjoin, List.zipWith_cons_cons,
        String.join_cons, String.append_assoc, String.append_assoc]

end Tiles

/-! ## All texts -/

/-- The tokens are slices of the text, in their order and without an overlap, and all that is left
out of them is blank. -/
structure Partitions (text : String) (tokens : List Token) : Prop where
  ne_eof : ∀ t ∈ tokens, t.kind ≠ .eof
  nonempty : ∀ t ∈ tokens, t.span.start < t.span.stop
  ordered : tokens.Pairwise fun t u => t.span.stop ≤ u.span.start
  slices : ∀ t ∈ tokens, t.span.Slices text t.text
  blank : ∀ (before after : String) (c : Char), text = before ++ (String.singleton c ++ after) →
    (∀ t ∈ tokens, ¬ (t.span.start ≤ before.utf8ByteSize ∧ before.utf8ByteSize < t.span.stop)) →
      isBlank c = true
  restored : ∃ (gaps : List String) (last : String), gaps.length = tokens.length ∧
    (∀ gap ∈ last :: gaps, ∀ c ∈ gap.toList, isBlank c = true) ∧
    text = String.join (List.zipWith (fun gap t => gap ++ t.text) gaps tokens) ++ last

theorem partitions_scan (text : String) : Partitions text (scan text) := by
  have h : Tiles 0 text.toList (scan text) := tiles_scanFrom 0 text.toList
  exact
    { ne_eof := h.ne_eof
      nonempty := h.start_lt_stop
      ordered := h.ordered
      slices := by
        have hslices := h.slices [] rfl
        rwa [List.nil_append, String.ofList_toList] at hslices
      blank := by
        intro before after c htext hc
        have hs : text.toList = before.toList ++ c :: after.toList := by
          rw [htext]
          simp
        refine h.isBlank_of_uncovered _ hs fun t ht => ?_
        rw [Nat.zero_add, byteCount_eq, String.ofList_toList]
        exact hc t ht
      restored := by
        have hgaps := h.exists_gaps
        rwa [String.ofList_toList] at hgaps }

/-- The tokens of a text are those that partition it, and behind them the end mark: the only one of
its kind, and empty at the length of the text. -/
theorem tokenize_partitions (text : String) :
    tokenize text = scan text ++ [⟨.eof, ⟨text.utf8ByteSize, text.utf8ByteSize⟩, ""⟩] ∧
      Partitions text (scan text) ∧
      Span.Slices text ⟨text.utf8ByteSize, text.utf8ByteSize⟩ "" := by
  refine ⟨rfl, partitions_scan text, ?_⟩
  have h := slices_append text "" ""
  simpa using h

end Optima.Formula
