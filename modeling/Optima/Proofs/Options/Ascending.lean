import Mathlib.Data.List.Perm.Lattice
import Optima.Options

/-!
Stores of options as finite maps.

* `Key.before_trans`, `Key.eq_or_before`: keys are strictly and totally ordered.
* `Ascending`: the entries of a store are in the order of their keys, and so no key has two.
* `ascending_ofList`, `Ascending.insert`, `Ascending.erase`: every way to build a store leads to an
  ascending one.
* `Ascending.ext`: stores that answer every look-up alike are equal.
* `ofList_eq_of_perm`: so it makes no difference in which order entries are written.
-/

namespace Optima.Options

/-! ## The order of keys -/

namespace Key

theorem before_trans {a b c : Key} (h : a.before b = true) (h' : b.before c = true) :
    a.before c = true := by
  obtain ⟨s, n⟩ := a
  obtain ⟨t, m⟩ := b
  obtain ⟨r, k⟩ := c
  cases s <;> cases t <;> cases r <;> simp only [before, Bool.or_eq_true, Bool.and_eq_true,
    decide_eq_true_eq, beq_iff_eq, Bool.false_eq_true] at h h' ⊢
  case none.none.none => exact String.lt_trans h h'
  case some.some.some s t r =>
    rcases h with h | ⟨rfl, h⟩
    · rcases h' with h' | ⟨rfl, -⟩
      · exact .inl (String.lt_trans h h')
      · exact .inl h
    · rcases h' with h' | ⟨rfl, h'⟩
      · exact .inl h'
      · exact .inr ⟨rfl, String.lt_trans h h'⟩

theorem eq_or_lt_or_gt (s t : String) : s = t ∨ s < t ∨ t < s := by
  by_cases hst : s < t
  · exact .inr (.inl hst)
  · by_cases hts : t < s
    · exact .inr (.inr hts)
    · exact .inl (String.le_antisymm (String.not_lt.1 hts) (String.not_lt.1 hst))

/-- Of two keys one comes first. -/
theorem eq_or_before (a b : Key) : a = b ∨ a.before b = true ∨ b.before a = true := by
  obtain ⟨s, n⟩ := a
  obtain ⟨t, m⟩ := b
  have hname := eq_or_lt_or_gt n m
  cases s <;> cases t <;> simp only [before, Bool.or_eq_true, Bool.and_eq_true, decide_eq_true_eq,
    beq_iff_eq, mk.injEq, reduceCtorEq]
  case none.none => simpa using hname
  case some.none => simp
  case none.some => simp
  case some.some s t =>
    rcases eq_or_lt_or_gt s t with rfl | h | h
    · rcases hname with rfl | h | h
      · exact .inl ⟨rfl, rfl⟩
      · exact .inr (.inl (.inr ⟨rfl, h⟩))
      · exact .inr (.inr (.inr ⟨rfl, h⟩))
    · exact .inr (.inl (.inl h))
    · exact .inr (.inr (.inl h))

theorem ne_of_before {a b : Key} (h : a.before b = true) : a ≠ b := by
  rintro rfl
  rw [before_irrefl] at h
  cases h

end Key

/-! ## Ascending stores -/

variable {α : Type}

/-- Each entry comes before all later ones. -/
def InOrder (entries : List (Key × Value α)) : Prop :=
  entries.Pairwise fun a b => a.1.before b.1 = true

def Ascending (opts : Options α) : Prop := InOrder opts.entries

theorem InOrder.nodup {entries : List (Key × Value α)} (h : InOrder entries) : entries.Nodup :=
  h.imp fun hab he => Key.ne_of_before hab (congrArg Prod.fst he)

theorem InOrder.nodup_keys {entries : List (Key × Value α)} (h : InOrder entries) :
    (entries.map Prod.fst).Nodup :=
  List.pairwise_map.2 (h.imp Key.ne_of_before)

theorem mem_insertEntry {key : Key} {value : Value α} {entry : Key × Value α}
    {entries : List (Key × Value α)} (h : entry ∈ insertEntry key value entries) :
    entry = (key, value) ∨ entry ∈ entries := by
  induction entries with
  | nil => exact .inl (List.mem_singleton.1 h)
  | cons head rest ih =>
    rw [insertEntry] at h
    split at h
    · exact List.mem_cons.1 h
    · split at h
      · exact (List.mem_cons.1 h).imp_right (List.mem_cons_of_mem _)
      · rcases List.mem_cons.1 h with h | h
        · exact .inr (h ▸ List.mem_cons_self)
        · exact (ih h).imp_right (List.mem_cons_of_mem _)

theorem InOrder.insertEntry {entries : List (Key × Value α)} (h : InOrder entries) (key : Key)
    (value : Value α) : InOrder (insertEntry key value entries) := by
  induction entries with
  | nil => exact List.pairwise_singleton _ _
  | cons head rest ih =>
    obtain ⟨hhead, hrest⟩ := List.pairwise_cons.1 h
    rw [Options.insertEntry]
    split
    · next hbefore =>
      refine List.pairwise_cons.2 ⟨fun entry he => ?_, h⟩
      rcases List.mem_cons.1 he with rfl | he
      · exact hbefore
      · exact Key.before_trans hbefore (hhead entry he)
    · next hbefore =>
      split
      · next heq =>
        subst heq
        exact List.pairwise_cons.2 ⟨hhead, hrest⟩
      · next hne =>
        refine List.pairwise_cons.2 ⟨fun entry he => ?_, ih hrest⟩
        rcases mem_insertEntry he with rfl | he
        · exact ((Key.eq_or_before key head.1).resolve_left hne).resolve_left hbefore
        · exact hhead entry he

theorem ascending_empty : (empty : Options α).Ascending := List.Pairwise.nil

theorem Ascending.insert {opts : Options α} (h : opts.Ascending) (key : Key) (value : Value α) :
    (opts.insert key value).Ascending := InOrder.insertEntry h key value

theorem Ascending.erase {opts : Options α} (h : opts.Ascending) (key : Key) :
    (opts.erase key).Ascending := List.Pairwise.filter _ h

theorem Ascending.insertMany {opts : Options α} (h : opts.Ascending)
    (writes : List (Key × Value α)) : (opts.insertMany writes).Ascending := by
  induction writes generalizing opts with
  | nil => exact h
  | cons write writes ih => exact ih (h.insert write.1 write.2)

theorem ascending_ofList (writes : List (Key × Value α)) : (ofList writes).Ascending :=
  ascending_empty.insertMany writes

/-! ## Look-ups -/

theorem lookup_eq_some_iff_mem {entries : List (Key × Value α)}
    (h : (entries.map Prod.fst).Nodup) {key : Key} {value : Value α} :
    entries.lookup key = some value ↔ (key, value) ∈ entries := by
  induction entries with
  | nil => simp
  | cons head rest ih =>
    obtain ⟨k, v⟩ := head
    rw [List.map_cons, List.nodup_cons] at h
    rw [List.lookup_cons, List.mem_cons, Prod.mk.injEq]
    by_cases hk : key = k
    · subst hk
      have hrest : (key, value) ∉ rest := fun hm =>
        h.1 (List.mem_map.2 ⟨(key, value), hm, rfl⟩)
      simp [hrest, eq_comm]
    · simp [beq_eq_false_iff_ne.2 hk, hk, ih h.2]

theorem Ascending.find?_eq_some_iff {opts : Options α} (h : opts.Ascending) {key : Key}
    {value : Value α} : opts.find? key = some value ↔ (key, value) ∈ opts.entries :=
  lookup_eq_some_iff_mem (InOrder.nodup_keys h)

/-- A store is determined by what it answers. -/
theorem Ascending.ext {a b : Options α} (ha : a.Ascending) (hb : b.Ascending)
    (h : ∀ key, a.find? key = b.find? key) : a = b := by
  have hmem (entry : Key × Value α) : entry ∈ a.entries ↔ entry ∈ b.entries := by
    rw [← ha.find?_eq_some_iff, h, hb.find?_eq_some_iff]
  have hperm : a.entries.Perm b.entries :=
    (List.perm_ext_iff_of_nodup (InOrder.nodup ha) (InOrder.nodup hb)).2 hmem
  have hentries : a.entries = b.entries := hperm.eq_of_pairwise
    (fun x y _ _ hxy hyx => absurd (Key.before_trans hxy hyx) fun hxx => Key.ne_of_before hxx rfl)
    ha hb
  obtain ⟨as⟩ := a
  exact congrArg Options.mk hentries

/-- What is found after several writes is what was written last. -/
theorem find?_insertMany (opts : Options α) (writes : List (Key × Value α)) (key : Key) :
    (opts.insertMany writes).find? key = (writes.reverse.lookup key).or (opts.find? key) := by
  induction writes generalizing opts with
  | nil => rfl
  | cons write writes ih =>
    obtain ⟨k, v⟩ := write
    have hcons : opts.insertMany ((k, v) :: writes) = (opts.insert k v).insertMany writes := rfl
    rw [hcons, ih, find?_insert, List.reverse_cons, List.lookup_append, Option.or_assoc,
      List.lookup_cons]
    by_cases hk : key = k
    · simp [hk]
    · simp [beq_eq_false_iff_ne.2 hk, hk]

/-- The entries of a store, written in any order, make up the store. -/
theorem ofList_eq_of_perm {opts : Options α} (h : opts.Ascending) {writes : List (Key × Value α)}
    (hp : writes.Perm opts.entries) : ofList writes = opts := by
  have hperm : writes.reverse.Perm opts.entries := (List.reverse_perm writes).trans hp
  have hnodup : (writes.reverse.map Prod.fst).Nodup :=
    (hperm.map Prod.fst).nodup_iff.2 (InOrder.nodup_keys h)
  refine (ascending_ofList writes).ext h fun key => ?_
  have hnone : (empty : Options α).find? key = none := rfl
  rw [ofList, find?_insertMany, hnone, Option.or_none]
  refine Option.ext fun value => ?_
  rw [lookup_eq_some_iff_mem hnodup, h.find?_eq_some_iff, hperm.mem_iff]

end Optima.Options
