import Mathlib.Data.List.Forall2

/-!
Computations that can fail.

* `bind_eq_ok`: what two steps give if neither fails.
* `exists_eq_ok_of_any`: a computation that is seen not to fail.
* `forall₂_of_mapM`: what a list of computations gives if none fails.
* `bind_eq_error`: one of two steps fails.
* `exists_mapM_eq_ok_iff`: a list of computations fails only if one of them does.
* `mapM_eq_error_iff`: it fails as the first of them that does.
* `exists_foldlM_eq_ok_iff`, `exists_of_foldlM_eq_error`: the same of a fold, where it depends on the
  items alone which steps fail.
-/

namespace Optima

variable {β γ ε : Type}

theorem bind_eq_ok {x : Except ε β} {f : β → Except ε γ} {c : γ} :
    (x >>= f) = .ok c ↔ ∃ b, x = .ok b ∧ f b = .ok c := by
  cases x with
  | error e => exact ⟨nofun, nofun⟩
  | ok b =>
    constructor
    · exact fun h => ⟨b, rfl, h⟩
    · rintro ⟨_, ⟨⟩, h⟩
      exact h

theorem bind_eq_error {x : Except ε β} {f : β → Except ε γ} {error : ε} :
    (x >>= f) = .error error ↔ x = .error error ∨ ∃ b, x = .ok b ∧ f b = .error error := by
  cases x with
  | error e =>
    constructor
    · rintro ⟨⟩
      exact .inl rfl
    · rintro (⟨⟨⟩⟩ | ⟨b, ⟨⟩, -⟩)
      rfl
  | ok b =>
    constructor
    · exact fun h => .inr ⟨b, rfl, h⟩
    · rintro (⟨⟨⟩⟩ | ⟨_, ⟨⟩, h⟩)
      exact h

theorem exists_eq_ok_of_any {x : Except ε β} {p : β → Bool} (h : x.toOption.any p = true) :
    ∃ b, x = .ok b ∧ p b = true := by
  cases x with
  | error e => cases h
  | ok b => exact ⟨b, rfl, h⟩

theorem forall₂_of_mapM {f : β → Except ε γ} {bs : List β} {cs : List γ}
    (h : bs.mapM f = .ok cs) : List.Forall₂ (fun b c => f b = .ok c) bs cs := by
  induction bs generalizing cs with
  | nil =>
    cases h
    exact .nil
  | cons b bs ih =>
    rw [List.mapM_cons] at h
    obtain ⟨c, hc, h₁⟩ := bind_eq_ok.1 h
    obtain ⟨cs', hcs, ⟨⟩⟩ := bind_eq_ok.1 h₁
    exact .cons hc (ih hcs)

theorem exists_mapM_eq_ok_iff {f : β → Except ε γ} {bs : List β} :
    (∃ cs, bs.mapM f = .ok cs) ↔ ∀ b ∈ bs, ∃ c, f b = .ok c := by
  induction bs with
  | nil => exact ⟨fun _ => nofun, fun _ => ⟨[], rfl⟩⟩
  | cons b bs ih =>
    rw [List.mapM_cons, List.forall_mem_cons, ← ih]
    constructor
    · rintro ⟨cs, h⟩
      obtain ⟨c, hc, h₁⟩ := bind_eq_ok.1 h
      obtain ⟨cs', hcs, -⟩ := bind_eq_ok.1 h₁
      exact ⟨⟨c, hc⟩, cs', hcs⟩
    · rintro ⟨⟨c, hc⟩, cs, hcs⟩
      exact ⟨c :: cs, bind_eq_ok.2 ⟨c, hc, bind_eq_ok.2 ⟨cs, hcs, rfl⟩⟩⟩

/-- Where `culprit?` tells what a single computation fails for, its first answer along the list tells
what the list fails for. -/
theorem mapM_eq_error_iff {δ : Type} {f : β → Except ε γ} {culprit? : β → Option δ} {blame : δ → ε}
    (h : ∀ b error, f b = .error error ↔ ∃ d, culprit? b = some d ∧ error = blame d) {bs : List β}
    {error : ε} :
    bs.mapM f = .error error ↔ ∃ d, bs.findSome? culprit? = some d ∧ error = blame d := by
  induction bs with
  | nil =>
    constructor
    · rintro ⟨⟩
    · rintro ⟨d, ⟨⟩, -⟩
  | cons b bs ih =>
    rw [List.mapM_cons, bind_eq_error, h, List.findSome?_cons]
    cases hb : culprit? b with
    | some d =>
      refine ⟨?_, .inl⟩
      rintro (hd | ⟨c, hc, -⟩)
      · exact hd
      · rw [(h b (blame d)).2 ⟨d, hb, rfl⟩] at hc
        cases hc
    | none =>
      obtain ⟨c, hc⟩ : ∃ c, f b = .ok c := by
        cases hf : f b with
        | ok c => exact ⟨c, rfl⟩
        | error e =>
          obtain ⟨d, hd, -⟩ := (h b e).1 hf
          rw [hb] at hd
          cases hd
      rw [← ih]
      constructor
      · rintro (⟨d, ⟨⟩, -⟩ | ⟨c', -, hrest⟩)
        rcases bind_eq_error.1 hrest with hbs | ⟨cs, -, ⟨⟩⟩
        exact hbs
      · exact fun hbs => .inr ⟨c, hc, bind_eq_error.2 (.inl hbs)⟩

section

variable {f : γ → β → Except ε γ} {P : β → Prop} (h : ∀ c b, (∃ c', f c b = .ok c') ↔ P b)

include h

theorem exists_foldlM_eq_ok_iff {bs : List β} {c : γ} :
    (∃ c', bs.foldlM f c = .ok c') ↔ ∀ b ∈ bs, P b := by
  induction bs generalizing c with
  | nil => exact ⟨fun _ => nofun, fun _ => ⟨c, rfl⟩⟩
  | cons b bs ih =>
    rw [List.foldlM_cons, List.forall_mem_cons, ← h c]
    constructor
    · rintro ⟨last, hlast⟩
      obtain ⟨c', hc, hrest⟩ := bind_eq_ok.1 hlast
      exact ⟨⟨c', hc⟩, ih.1 ⟨last, hrest⟩⟩
    · rintro ⟨⟨c', hc⟩, hbs⟩
      obtain ⟨last, hlast⟩ := ih (c := c').2 hbs
      exact ⟨last, bind_eq_ok.2 ⟨c', hc, hlast⟩⟩

/-- The error of a fold is that of a step, and no item before it makes a step fail. -/
theorem exists_of_foldlM_eq_error {bs : List β} {c : γ} {error : ε}
    (he : bs.foldlM f c = .error error) :
    ∃ before b after c', bs = before ++ b :: after ∧ (∀ b' ∈ before, P b') ∧
      f c' b = .error error := by
  induction bs generalizing c with
  | nil => cases he
  | cons b bs ih =>
    rw [List.foldlM_cons] at he
    rcases bind_eq_error.1 he with hb | ⟨c', hc, hrest⟩
    · exact ⟨[], b, bs, c, rfl, nofun, hb⟩
    · obtain ⟨before, b', after, c'', rfl, hbefore, hb'⟩ := ih hrest
      exact ⟨b :: before, b', after, c'', rfl,
        List.forall_mem_cons.2 ⟨(h c b).1 ⟨c', hc⟩, hbefore⟩, hb'⟩

end

end Optima
