import Mathlib.Data.Set.Card
import Optima.Proofs.Options.Ascending
import Optima.Proofs.Text.Bytes

/-!
Stores of options by their history.

* `Operation`, `perform`, `after`: what can be done to a store, what is handed back, and what a store
  becomes.
* `Event`, `history`: the single writes and removals that operations come down to, in their order.
* `LastWrite`: the last event that concerns a key writes a value to it.
* `after_eq_foldl`, `find?_after_eq_some_iff`: a store is what its events make of it, so this value is
  the one that is found.
* `Key.Precedes`, `Key.before_iff_precedes`: entries are kept in the order of the bytes of their keys.
* `Records`, `records_after`: a store has exactly the entries that the events leave.
* `after_determined`: so what is left of a history decides on the store, on its text, and on what the
  next operation hands back.
-/

namespace Optima.Options

variable {α : Type}

/-! ## Operations -/

/-- What can be done to a store. -/
inductive Operation (α : Type)
  | set (space : Option String) (name : String) (value : Value α)
  | insert (key : Key) (value : Value α)
  | merge (space : Option String) (values : List (String × Value α))
  | remove (key : Key)
  | clear
  /-- A new store of these entries takes the place of the old one. -/
  | collect (entries : List (Key × Value α))

/-- What an operation hands back, and the store after it. -/
def perform (opts : Options α) : Operation α → Option (Value α) × Options α
  | .set space name value => (none, opts.insert ⟨space, name⟩ value)
  | .insert key value => opts.replace key value
  | .merge space values => (none, opts.merge space values)
  | .remove key => opts.remove key
  | .clear => (none, .empty)
  | .collect entries => (none, ofList entries)

/-- The store after operations one after the other, from an empty one on. -/
def after (ops : List (Operation α)) : Options α :=
  ops.foldl (fun opts op => (opts.perform op).2) .empty

/-! ## Events -/

/-- A single thing that happens to a store. -/
inductive Event (α : Type)
  | write (key : Key) (value : Value α)
  | erase (key : Key)
  | reset

/-- Several values at once are written one after the other. -/
def Operation.events : Operation α → List (Event α)
  | .set space name value => [.write ⟨space, name⟩ value]
  | .insert key value => [.write key value]
  | .merge space values => values.map fun (name, value) => .write ⟨space, name⟩ value
  | .remove key => [.erase key]
  | .clear => [.reset]
  | .collect entries => .reset :: entries.map fun (key, value) => .write key value

def history (ops : List (Operation α)) : List (Event α) := ops.flatMap Operation.events

/-- The event writes to the key, or makes its value disappear. -/
def Event.Concerns (key : Key) : Event α → Prop
  | .write k _ => k = key
  | .erase k => k = key
  | .reset => True

/-- The value is written to the key, and no later event concerns that. -/
def LastWrite (events : List (Event α)) (key : Key) (value : Value α) : Prop :=
  ∃ before later, events = before ++ .write key value :: later ∧ ∀ e ∈ later, ¬ e.Concerns key

theorem lastWrite_append_singleton {events : List (Event α)} {e : Event α} {key : Key}
    {value : Value α} :
    LastWrite (events ++ [e]) key value ↔
      e = .write key value ∨ ¬ e.Concerns key ∧ LastWrite events key value := by
  constructor
  · rintro ⟨before, later, hsplit, hlater⟩
    rcases List.eq_nil_or_concat later with rfl | ⟨later, e', rfl⟩
    · exact .inl (List.append_inj_right' hsplit rfl |> List.singleton_inj.1)
    · rw [List.concat_eq_append] at hsplit hlater
      rw [← List.cons_append, ← List.append_assoc] at hsplit
      obtain ⟨rfl, he⟩ := List.append_inj' hsplit rfl
      obtain rfl := List.singleton_inj.1 he
      exact .inr ⟨hlater e (List.mem_append_right _ List.mem_cons_self), before, later, rfl,
        fun e' he' => hlater e' (List.mem_append_left _ he')⟩
  · rintro (rfl | ⟨he, before, later, rfl, hlater⟩)
    · exact ⟨events, [], rfl, List.forall_mem_nil _⟩
    · refine ⟨before, later ++ [e], by simp, fun e' he' => ?_⟩
      rcases List.mem_append.1 he' with he' | he'
      · exact hlater e' he'
      · rw [List.mem_singleton.1 he']
        exact he

/-- What an event makes of a store. -/
def apply (opts : Options α) : Event α → Options α
  | .write key value => opts.insert key value
  | .erase key => opts.erase key
  | .reset => .empty

theorem foldl_apply_writes (opts : Options α) (writes : List (Key × Value α)) :
    (writes.map fun (key, value) => Event.write key value).foldl apply opts =
      opts.insertMany writes := by
  rw [List.foldl_map]
  rfl

theorem perform_eq_foldl (opts : Options α) (op : Operation α) :
    (opts.perform op).2 = op.events.foldl apply opts := by
  cases op with
  | set space name value => rfl
  | insert key value => rfl
  | merge space values =>
    rw [perform, Operation.events, merge, ← foldl_apply_writes, List.map_map]
    rfl
  | remove key => rfl
  | clear => rfl
  | collect entries => exact (foldl_apply_writes empty entries).symm

theorem after_eq_foldl (ops : List (Operation α)) :
    after ops = (history ops).foldl apply .empty := by
  rw [history, List.foldl_flatMap, after]
  simp only [perform_eq_foldl]

/-! ## What is found -/

theorem find?_apply_eq_some_iff {opts : Options α} {e : Event α} {key : Key} {value : Value α} :
    (opts.apply e).find? key = some value ↔
      e = .write key value ∨ ¬ e.Concerns key ∧ opts.find? key = some value := by
  cases e with
  | write k v =>
    rw [apply, find?_insert]
    split
    · next h => simp [h, Event.Concerns]
    · next h => simp [Event.Concerns, Ne.symm h]
  | erase k =>
    rw [apply, find?_erase]
    split
    · next h => simp [h, Event.Concerns]
    · next h => simp [Event.Concerns, Ne.symm h]
  | reset => simp [apply, Event.Concerns, find?, empty]

theorem find?_foldl_apply_eq_some_iff {events : List (Event α)} {key : Key} {value : Value α} :
    (events.foldl apply empty).find? key = some value ↔ LastWrite events key value := by
  induction events using List.reverseRecOn with
  | nil =>
    refine iff_of_false (fun h => by cases h) ?_
    rintro ⟨before, later, hsplit, -⟩
    exact List.append_ne_nil_of_right_ne_nil before (List.cons_ne_nil _ later) hsplit.symm
  | append_singleton events e ih =>
    rw [List.foldl_concat, find?_apply_eq_some_iff, lastWrite_append_singleton, ih]

theorem find?_after_eq_some_iff {ops : List (Operation α)} {key : Key} {value : Value α} :
    (after ops).find? key = some value ↔ LastWrite (history ops) key value := by
  rw [after_eq_foldl, find?_foldl_apply_eq_some_iff]

/-! ## The order of entries -/

/-- Keys without a space come first; then the bytes of the space decide, and then those of the name. -/
def Key.Precedes (a b : Key) : Prop :=
  match a.space, b.space with
  | none, none => Text.utf8 a.name < Text.utf8 b.name
  | none, some _ => True
  | some _, none => False
  | some s, some t => Text.utf8 s < Text.utf8 t ∨ s = t ∧ Text.utf8 a.name < Text.utf8 b.name

theorem Key.before_iff_precedes (a b : Key) : a.before b = true ↔ a.Precedes b := by
  obtain ⟨s, n⟩ := a
  obtain ⟨t, m⟩ := b
  cases s <;> cases t <;> simp [before, Precedes, Text.utf8_lt_utf8_iff]

theorem ascending_apply {opts : Options α} (h : opts.Ascending) (e : Event α) :
    (opts.apply e).Ascending := by
  cases e with
  | write key value => exact h.insert key value
  | erase key => exact h.erase key
  | reset => exact ascending_empty

theorem ascending_after (ops : List (Operation α)) : (after ops).Ascending := by
  rw [after_eq_foldl]
  induction history ops using List.reverseRecOn with
  | nil => exact ascending_empty
  | append_singleton events e ih =>
    rw [List.foldl_concat]
    exact ascending_apply ih e

/-! ## Stores and their history -/

/-- The store has the entries that the events leave, one for each key and by the bytes of keys. -/
structure Records (opts : Options α) (events : List (Event α)) : Prop where
  find?_iff : ∀ key value, opts.find? key = some value ↔ LastWrite events key value
  replaced_iff : ∀ key new old,
    (opts.perform (.insert key new)).1 = some old ↔ LastWrite events key old
  removed_iff : ∀ key old, (opts.perform (.remove key)).1 = some old ↔ LastWrite events key old
  mem_entries_iff : ∀ key value, (key, value) ∈ opts.entries ↔ LastWrite events key value
  nodup_keys : (opts.entries.map Prod.fst).Nodup
  precedes : opts.entries.Pairwise fun a b => a.1.Precedes b.1
  size_eq : opts.size = Set.ncard {key | ∃ value, LastWrite events key value}

theorem ncard_keys {opts : Options α} (h : opts.Ascending) :
    Set.ncard {key | ∃ value, (key, value) ∈ opts.entries} = opts.size := by
  have hkeys : {key | ∃ value, (key, value) ∈ opts.entries} =
      ((opts.entries.map Prod.fst).toFinset : Set Key) := by
    ext key
    simp
  rw [hkeys, Set.ncard_coe_finset, List.toFinset_card_of_nodup (InOrder.nodup_keys h),
    List.length_map, size]

theorem records_after (ops : List (Operation α)) : (after ops).Records (history ops) := by
  have hasc := ascending_after ops
  have hmem (key : Key) (value : Value α) :
      (key, value) ∈ (after ops).entries ↔ LastWrite (history ops) key value :=
    hasc.find?_eq_some_iff.symm.trans find?_after_eq_some_iff
  exact {
    find?_iff := fun _ _ => find?_after_eq_some_iff
    replaced_iff := fun _ _ _ => find?_after_eq_some_iff
    removed_iff := fun _ _ => find?_after_eq_some_iff
    mem_entries_iff := hmem
    nodup_keys := InOrder.nodup_keys hasc
    precedes := hasc.imp fun h => (Key.before_iff_precedes _ _).1 h
    size_eq := by simp only [← hmem, ncard_keys hasc] }

/-- A key without a space and one with a space are different, whatever their names are. -/
theorem find?_perform_of_isSome_ne (opts : Options α) {key other : Key}
    (h : key.space.isSome ≠ other.space.isSome) (value : Value α) :
    (opts.perform (.insert key value)).2.find? other = opts.find? other ∧
      (opts.perform (.remove key)).2.find? other = opts.find? other := by
  have hne : other ≠ key := fun he => h (by rw [he])
  exact ⟨by rw [perform, replace, find?_insert, if_neg hne],
    by rw [perform, remove, find?_erase, if_neg hne]⟩

/-- Stores are finite maps in which the last write counts, with one order of their entries: what is
found, handed back, counted and listed is what the history leaves, a key without a space is never
taken for one with a space, and histories that leave the same entries lead to the same store and
text. -/
theorem after_determined [Printable α] (ops : List (Operation α)) :
    (after ops).Records (history ops) ∧
      (∀ key other : Key, key.space.isSome ≠ other.space.isSome → ∀ value : Value α,
        ((after ops).perform (.insert key value)).2.find? other = (after ops).find? other ∧
          ((after ops).perform (.remove key)).2.find? other = (after ops).find? other) ∧
      ∀ ops' : List (Operation α),
        (∀ key value, LastWrite (history ops) key value ↔ LastWrite (history ops') key value) →
          after ops = after ops' ∧ (after ops).describe = (after ops').describe := by
  refine ⟨records_after ops, fun key other h => find?_perform_of_isSome_ne _ h,
    fun ops' hsame => ?_⟩
  have hstores : after ops = after ops' := by
    refine (ascending_after ops).ext (ascending_after ops') fun key => Option.ext fun value => ?_
    rw [find?_after_eq_some_iff, find?_after_eq_some_iff, hsame]
  exact ⟨hstores, by rw [hstores]⟩

end Optima.Options
