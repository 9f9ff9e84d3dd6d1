import Optima.Proofs.Lagrangian.Settings
import Optima.Proofs.Options.Ascending
import Optima.Proofs.Scalar.Double

/-!
Reading settings from options is exact.

* `Setting.Kind.Takes`: which values a setting of a kind takes, and what it is set to by them.
* `takes_of_assign`, `exists_assign_of_takes`: setting one option changes the content of its
  setting, and fails only for a value that this does not take.
* `resulting_of_foldlM`: after all options each setting has the content that its value says, or
  still the one that it had.
* `exists_ofOptions_iff`: which stores settings can be read from.
* `readExactly_ofOptions`: what is read, and what an error is reported for.
-/

namespace Optima

/-! ## Values -/

/-- A value that counts as a number: a real one or an integer. -/
inductive Options.Value.IsNumber {α : Type} [Scalar α] : Options.Value α → α → Prop
  | real (v : α) : IsNumber (.real v) v
  | int (n : Int) : IsNumber (.int n) (Scalar.ofInt n)

namespace Lagrangian

open Options (Value)

/-- What settings can be, by the values that they take. -/
inductive Setting.Kind
  | limit | positive | aboveOne | level | flag | bool | rule

def Setting.kind : Setting → Kind
  | .maxIterations | .innerMaxIterations => .limit
  | .tolerance | .violationTolerance | .acceptableTolerance | .acceptableViolationTolerance
  | .firstPenalty | .maxPenalty => .positive
  | .penaltyGrowth => .aboveOne
  | .printLevel => .level
  | .silent => .flag
  | .timed => .bool
  | .rule => .rule

/-- What a setting is set to. -/
inductive Content (α : Type)
  | count (n : Nat)
  | number (v : α)
  | level (n : Int)
  | switch (on : Bool)
  | rule (r : Descent.StepRule)

variable {α : Type}

def Settings.content (s : Settings α) : Setting → Content α
  | .maxIterations => .count s.maxIterations
  | .innerMaxIterations => .count s.innerMaxIterations
  | .tolerance => .number s.tolerance
  | .violationTolerance => .number s.violationTolerance
  | .acceptableTolerance => .number s.acceptableTolerance
  | .acceptableViolationTolerance => .number s.acceptableViolationTolerance
  | .firstPenalty => .number s.firstPenalty
  | .maxPenalty => .number s.maxPenalty
  | .penaltyGrowth => .number s.penaltyGrowth
  | .printLevel => .level s.printLevel
  | .silent => .switch s.silent
  | .timed => .switch s.timed
  | .rule => .rule s.rule

variable [Scalar α]

/-- The values that settings of a kind take, each with what the setting is set to. -/
inductive Setting.Kind.Takes : Kind → Value α → Content α → Prop
  | limit (n : Nat) : Takes .limit (.int n) (.count n)
  | positive {value : Value α} {v : α} (h : value.IsNumber v) (hv : 0 < v) :
      Takes .positive value (.number v)
  | aboveOne {value : Value α} {v : α} (h : value.IsNumber v) (hv : 1 < v) :
      Takes .aboveOne value (.number v)
  | level {n : Int} (h : 0 ≤ n ∧ n ≤ 12) : Takes .level (.int n) (.level n)
  | flag (b : Bool) : Takes .flag (.bool b) (.switch b)
  | yes : Takes .flag (.text "yes") (.switch true)
  | no : Takes .flag (.text "no") (.switch false)
  | bool (b : Bool) : Takes .bool (.bool b) (.switch b)
  | rule (r : Descent.StepRule) : Takes .rule (.text r.name) (.rule r)

/-! ## Checks -/

section

variable {value : Value α}

theorem number_eq_ok_iff {v : α} : number value = .ok v ↔ value.IsNumber v := by
  constructor
  · intro h
    cases value <;> cases h
    · exact .int _
    · exact .real _
  · rintro (_ | _) <;> rfl

theorem positive_eq_ok_iff {v : α} : positive value = .ok v ↔ value.IsNumber v ∧ 0 < v := by
  rw [positive, bind_eq_ok]
  constructor
  · rintro ⟨w, hw, h⟩
    split at h
    · next hpos =>
      cases h
      exact ⟨number_eq_ok_iff.1 hw, hpos⟩
    · cases h
  · rintro ⟨h, hpos⟩
    exact ⟨v, number_eq_ok_iff.2 h, if_pos hpos⟩

theorem aboveOne_eq_ok_iff {v : α} : aboveOne value = .ok v ↔ value.IsNumber v ∧ 1 < v := by
  rw [aboveOne, bind_eq_ok]
  constructor
  · rintro ⟨w, hw, h⟩
    split at h
    · next hone =>
      cases h
      exact ⟨number_eq_ok_iff.1 hw, hone⟩
    · cases h
  · rintro ⟨h, hone⟩
    exact ⟨v, number_eq_ok_iff.2 h, if_pos hone⟩

omit [Scalar α] in
theorem count_eq_ok_iff {n : Nat} : count value = .ok n ↔ value = .int n := by
  constructor
  · intro h
    cases value with
    | int k =>
      simp only [count, Value.int?] at h
      split at h
      · cases h
      · next hk =>
        cases h
        rw [Int.toNat_of_nonneg (Int.not_lt.1 hk)]
    | _ => cases h
  · rintro rfl
    simp [count, Value.int?]

omit [Scalar α] in
theorem level_eq_ok_iff {n : Int} : level value = .ok n ↔ value = .int n ∧ 0 ≤ n ∧ n ≤ 12 := by
  constructor
  · intro h
    cases value with
    | int k =>
      simp only [level, Value.int?] at h
      split at h
      · next hk =>
        cases h
        exact ⟨rfl, hk⟩
      · cases h
    | _ => cases h
  · rintro ⟨rfl, h⟩
    exact if_pos h

omit [Scalar α] in
theorem flag_eq_ok_iff {b : Bool} :
    flag value = .ok b ↔ value = .bool b ∨ value = .text (if b then "yes" else "no") := by
  constructor
  · intro h
    unfold flag at h
    split at h <;> cases h
    · exact .inl rfl
    · exact .inr rfl
    · exact .inr rfl
  · rintro (rfl | rfl)
    · rfl
    · cases b <;> rfl

omit [Scalar α] in
theorem bool_eq_ok_iff {b : Bool} : bool value = .ok b ↔ value = .bool b := by
  constructor
  · intro h
    cases value <;> cases h
    rfl
  · rintro rfl
    rfl

theorem name_of_ofName? {text : String} {r : Descent.StepRule}
    (h : Descent.StepRule.ofName? text = some r) : text = r.name := by
  unfold Descent.StepRule.ofName? at h
  split at h <;> cases h <;> rfl

omit [Scalar α] in
theorem stepRule_eq_ok_iff {r : Descent.StepRule} :
    stepRule value = .ok r ↔ value = .text r.name := by
  constructor
  · intro h
    unfold stepRule at h
    split at h
    · next r' hr =>
      cases h
      obtain ⟨text, ht, hname⟩ := Option.bind_eq_some_iff.1 hr
      cases value with
      | text t =>
        cases ht
        rw [name_of_ofName? hname]
      | _ => cases ht
    · cases h
  · rintro rfl
    cases r <;> rfl

end

/-! ## One option -/

/-- A value that a setting takes changes the content of this setting only. -/
theorem takes_of_assign {setting : Setting} {value : Value α} {s s' : Settings α}
    (h : assign setting value s = .ok s') :
    setting.kind.Takes value (s'.content setting) ∧
      ∀ other, other ≠ setting → s'.content other = s.content other := by
  cases setting <;> obtain ⟨b, hb, ⟨⟩⟩ := bind_eq_ok.1 h
  all_goals refine ⟨?_, fun other hne => by cases other <;> first | rfl | exact absurd rfl hne⟩
  case maxIterations | innerMaxIterations => exact count_eq_ok_iff.1 hb ▸ .limit b
  case penaltyGrowth => exact .aboveOne (aboveOne_eq_ok_iff.1 hb).1 (aboveOne_eq_ok_iff.1 hb).2
  case printLevel => exact (level_eq_ok_iff.1 hb).1 ▸ .level (level_eq_ok_iff.1 hb).2
  case silent =>
    rcases flag_eq_ok_iff.1 hb with rfl | rfl
    · exact .flag b
    · cases b
      · exact .no
      · exact .yes
  case timed => exact bool_eq_ok_iff.1 hb ▸ .bool b
  case rule => exact stepRule_eq_ok_iff.1 hb ▸ .rule b
  all_goals exact .positive (positive_eq_ok_iff.1 hb).1 (positive_eq_ok_iff.1 hb).2

theorem exists_assign_of_takes {setting : Setting} {value : Value α} {c : Content α}
    (h : setting.kind.Takes value c) (s : Settings α) :
    ∃ s', assign setting value s = .ok s' ∧ s'.content setting = c := by
  cases setting <;> cases h
  case printLevel.level n hn => exact ⟨_, bind_eq_ok.2 ⟨n, level_eq_ok_iff.2 ⟨rfl, hn⟩, rfl⟩, rfl⟩
  case penaltyGrowth.aboveOne =>
    exact ⟨_, bind_eq_ok.2 ⟨_, aboveOne_eq_ok_iff.2 ⟨‹_›, ‹_›⟩, rfl⟩, rfl⟩
  case maxIterations.limit n | innerMaxIterations.limit n =>
    exact ⟨_, bind_eq_ok.2 ⟨n, count_eq_ok_iff.2 rfl, rfl⟩, rfl⟩
  case silent.flag b => exact ⟨_, rfl, rfl⟩
  case silent.yes => exact ⟨_, rfl, rfl⟩
  case silent.no => exact ⟨_, rfl, rfl⟩
  case timed.bool b => exact ⟨_, rfl, rfl⟩
  case rule.rule r => exact ⟨_, bind_eq_ok.2 ⟨r, stepRule_eq_ok_iff.2 rfl, rfl⟩, rfl⟩
  all_goals exact ⟨_, bind_eq_ok.2 ⟨_, positive_eq_ok_iff.2 ⟨‹_›, ‹_›⟩, rfl⟩, rfl⟩

theorem takes_unique {setting : Setting} {value : Value α} {c c' : Content α}
    (h : setting.kind.Takes value c) (h' : setting.kind.Takes value c') : c = c' := by
  obtain ⟨s, hs, rfl⟩ := exists_assign_of_takes h .default
  obtain ⟨s', hs', rfl⟩ := exists_assign_of_takes h' .default
  rw [Except.ok.inj (hs.symm.trans hs')]

/-- The key is that of a setting, and this takes the value. -/
def Accepted (entry : Options.Key × Value α) : Prop :=
  ∃ (setting : Setting) (c : Content α), setting.key = entry.1 ∧ setting.kind.Takes entry.2 c

theorem assignOption_eq_ok {s s' : Settings α} {entry : Options.Key × Value α}
    (h : assignOption s entry = .ok s') :
    ∃ setting, setting.key = entry.1 ∧ assign setting entry.2 s = .ok s' := by
  unfold assignOption at h
  split at h
  · cases h
  · next setting hsetting =>
    refine ⟨setting, Setting.key_of_ofKey? hsetting, ?_⟩
    split at h
    · next s'' hassign => rw [hassign, Except.ok.inj h]
    · cases h

theorem key_of_assignOption_eq_error {s : Settings α} {entry : Options.Key × Value α}
    {e : BadOption α} (h : assignOption s entry = .error e) : e.key = entry.1 := by
  unfold assignOption at h
  split at h
  · cases h
    rfl
  · split at h <;> cases h
    rfl

theorem exists_assignOption_iff (s : Settings α) (entry : Options.Key × Value α) :
    (∃ s', assignOption s entry = .ok s') ↔ Accepted entry := by
  constructor
  · rintro ⟨s', h⟩
    obtain ⟨setting, hkey, hassign⟩ := assignOption_eq_ok h
    exact ⟨setting, _, hkey, (takes_of_assign hassign).1⟩
  · rintro ⟨setting, c, hkey, htakes⟩
    obtain ⟨s', hs, -⟩ := exists_assign_of_takes htakes s
    refine ⟨s', ?_⟩
    rw [assignOption, ← hkey, Setting.ofKey?_key]
    simp only [hs]

/-! ## All options -/

/-- What entries make of a setting whose content was `old`. -/
def Leaves (entries : List (Options.Key × Value α)) (setting : Setting) (old new : Content α) :
    Prop :=
  match entries.lookup setting.key with
  | some value => setting.kind.Takes value new
  | none => new = old

theorem key_injective {setting other : Setting} (h : setting.key = other.key) :
    setting = other := by
  have hfound := congrArg Setting.ofKey? h
  rw [Setting.ofKey?_key, Setting.ofKey?_key] at hfound
  exact Option.some.inj hfound

/-- The induction is on the entries. That of the setting comes once, so that the later ones leave
alone what it has set. -/
theorem leaves_foldlM {entries : List (Options.Key × Value α)} {s s' : Settings α}
    (hd : (entries.map Prod.fst).Nodup) (h : entries.foldlM assignOption s = .ok s')
    (setting : Setting) : Leaves entries setting (s.content setting) (s'.content setting) := by
  induction entries generalizing s with
  | nil =>
    cases h
    exact rfl
  | cons entry entries ih =>
    obtain ⟨key, value⟩ := entry
    rw [List.foldlM_cons] at h
    obtain ⟨t, ht, hrest⟩ := bind_eq_ok.1 h
    obtain ⟨assigned, rfl, hassign⟩ := assignOption_eq_ok ht
    obtain ⟨htakes, hothers⟩ := takes_of_assign hassign
    rw [List.map_cons, List.nodup_cons] at hd
    have hlater := ih hd.2 hrest
    unfold Leaves at hlater ⊢
    rw [List.lookup_cons]
    by_cases hs : setting = assigned
    · subst hs
      have hnone : entries.lookup setting.key = none := by
        rw [Option.eq_none_iff_forall_ne_some]
        intro value' hfound
        exact hd.1 (List.mem_map.2 ⟨_, (Options.lookup_eq_some_iff_mem hd.2).1 hfound, rfl⟩)
      rw [hnone] at hlater
      simpa [hlater] using htakes
    · rw [beq_eq_false_iff_ne.2 fun hkey => hs (key_injective hkey)]
      rwa [hothers setting hs] at hlater

/-- The content that options stand for: what the value of its key says, or else the default. -/
def Resulting (opts : Options α) (setting : Setting) (c : Content α) : Prop :=
  Leaves opts.entries setting (Settings.default.content setting) c

theorem resulting_unique {opts : Options α} {setting : Setting} {c c' : Content α}
    (h : Resulting opts setting c) (h' : Resulting opts setting c') : c = c' := by
  unfold Resulting Leaves at h h'
  split at h
  · next value hvalue =>
    rw [hvalue] at h'
    exact takes_unique h h'
  · next hnone =>
    rw [hnone] at h'
    exact h.trans h'.symm

/-- The penalty that the options make it start with is not above the cap that they set. -/
def StartsBelowCap (opts : Options α) : Prop :=
  ∃ first cap, Resulting opts .firstPenalty (.number first) ∧
    Resulting opts .maxPenalty (.number cap) ∧ ¬ cap < first

def AllAccepted (opts : Options α) : Prop :=
  ∀ key value, opts.find? key = some value → Accepted (key, value)

variable {opts : Options α}

theorem exists_foldlM_iff (h : opts.Ascending) :
    (∃ s, opts.entries.foldlM assignOption Settings.default = .ok s) ↔ AllAccepted opts := by
  rw [exists_foldlM_eq_ok_iff exists_assignOption_iff]
  constructor
  · exact fun hall key value hfound => hall _ (h.find?_eq_some_iff.1 hfound)
  · exact fun hall entry hmem => hall _ _ (h.find?_eq_some_iff.2 hmem)

theorem resulting_of_foldlM (h : opts.Ascending) {s : Settings α}
    (hs : opts.entries.foldlM assignOption Settings.default = .ok s) (setting : Setting) :
    Resulting opts setting (s.content setting) :=
  leaves_foldlM (Options.InOrder.nodup_keys h) hs setting

theorem startsBelowCap_iff (h : opts.Ascending) {s : Settings α}
    (hs : opts.entries.foldlM assignOption Settings.default = .ok s) :
    StartsBelowCap opts ↔ ¬ s.maxPenalty < s.firstPenalty := by
  have hfirst := resulting_of_foldlM h hs .firstPenalty
  have hcap := resulting_of_foldlM h hs .maxPenalty
  constructor
  · rintro ⟨first, cap, hfirst', hcap', hle⟩
    cases resulting_unique hfirst hfirst'
    cases resulting_unique hcap hcap'
    exact hle
  · exact fun hle => ⟨_, _, hfirst, hcap, hle⟩

theorem exists_ofOptions_iff (h : opts.Ascending) :
    (∃ s, Settings.ofOptions opts = .ok s) ↔ AllAccepted opts ∧ StartsBelowCap opts := by
  constructor
  · rintro ⟨s, hs⟩
    obtain ⟨hfold, hle⟩ := ofOptions_eq_ok hs
    exact ⟨(exists_foldlM_iff h).1 ⟨s, hfold⟩, (startsBelowCap_iff h hfold).2 hle⟩
  · rintro ⟨hall, hbelow⟩
    obtain ⟨s, hs⟩ := (exists_foldlM_iff h).2 hall
    exact ⟨s, bind_eq_ok.2 ⟨s, hs, if_neg ((startsBelowCap_iff h hs).1 hbelow)⟩⟩

/-! ## Errors -/

/-- The key has an entry that is not accepted, and comes before every other such key. -/
def FirstRefused (opts : Options α) (key : Options.Key) : Prop :=
  (∃ value, opts.find? key = some value ∧ ¬ Accepted (key, value)) ∧
    ∀ other value, opts.find? other = some value → ¬ Accepted (other, value) →
      other = key ∨ key.before other = true

theorem firstRefused_of_foldlM (h : opts.Ascending) {e : BadOption α}
    (he : opts.entries.foldlM assignOption Settings.default = .error e) :
    FirstRefused opts e.key := by
  obtain ⟨earlier, entry, later, s, hentries, hearlier, hentry⟩ :=
    exists_of_foldlM_eq_error exists_assignOption_iff he
  have hrefused : ¬ Accepted entry := by
    rw [← exists_assignOption_iff s]
    rintro ⟨s', hs'⟩
    rw [hentry] at hs'
    cases hs'
  have hmem : entry ∈ opts.entries := hentries ▸ List.mem_append_right _ List.mem_cons_self
  rw [key_of_assignOption_eq_error hentry]
  refine ⟨⟨entry.2, h.find?_eq_some_iff.2 hmem, hrefused⟩, fun other value hfound hother => ?_⟩
  -- The other entry is not among the earlier ones, which are all accepted.
  rw [h.find?_eq_some_iff, hentries, List.mem_append, List.mem_cons] at hfound
  rcases hfound with hfound | hfound | hfound
  · exact absurd (hearlier _ hfound) hother
  · exact .inl (congrArg Prod.fst hfound)
  · have horder : Options.InOrder (earlier ++ entry :: later) := hentries ▸ h
    have hcons := List.pairwise_cons.1 (List.pairwise_append.1 horder).2.1
    exact .inr (hcons.1 _ hfound)

theorem key_of_ofOptions_eq_error (h : opts.Ascending) {e : BadOption α}
    (he : Settings.ofOptions opts = .error e) :
    FirstRefused opts e.key ∨
      (AllAccepted opts ∧ ¬ StartsBelowCap opts ∧ e.key = Setting.firstPenalty.key) := by
  rcases bind_eq_error.1 he with hfold | ⟨s, hs, hcheck⟩
  · exact .inl (firstRefused_of_foldlM h hfold)
  · unfold checkPenalties at hcheck
    split at hcheck <;> cases hcheck
    next hlt =>
    refine .inr ⟨(exists_foldlM_iff h).1 ⟨s, hs⟩, ?_, rfl⟩
    rw [startsBelowCap_iff h hs]
    exact not_not_intro hlt

theorem not_accepted_of_isNaN [Ordered α] {v : α} (hv : Scalar.isNaN v = true)
    (key : Options.Key) : ¬ Accepted (key, Value.real v) := by
  have hnot (b : α) : ¬ b < v := fun hlt => by
    rw [(Ordered.defined_of_lt hlt).2] at hv
    cases hv
  rintro ⟨setting, c, -, htakes⟩
  cases hk : setting.kind <;> rw [hk] at htakes <;> cases htakes
  case positive.positive hpos hn =>
    cases hn
    exact hnot 0 hpos
  case aboveOne.aboveOne hone hn =>
    cases hn
    exact hnot 1 hone

/-! ## Reading -/

/-- What is read from a store, and when nothing is. -/
structure ReadExactly (opts : Options α) : Prop where
  ok_iff : (∃ s, Settings.ofOptions opts = .ok s) ↔ AllAccepted opts ∧ StartsBelowCap opts
  content : ∀ s, Settings.ofOptions opts = .ok s →
    ∀ setting, Resulting opts setting (s.content setting)
  error_key : ∀ e, Settings.ofOptions opts = .error e →
    FirstRefused opts e.key ∨
      (AllAccepted opts ∧ ¬ StartsBelowCap opts ∧ e.key = Setting.firstPenalty.key)
  undefined_refused : ∀ v : α, Scalar.isNaN v = true → ∀ key, ¬ Accepted (key, Value.real v)
  any_order : ∀ writes, writes.Perm opts.entries →
    Settings.ofOptions (.ofList writes) = Settings.ofOptions opts

/-- Settings are read from a store if and only if each of its entries is accepted and the penalty
that results does not start above its cap. Each setting then has the content that its entry says, or
the default. Otherwise the error is for the first key whose entry is not accepted, or, where all
are, for the penalty. The order in which the entries have been written makes no difference. -/
theorem readExactly_ofOptions [Ordered α] (h : opts.Ascending) : ReadExactly opts where
  ok_iff := exists_ofOptions_iff h
  content := fun _ hs => resulting_of_foldlM h (ofOptions_eq_ok hs).1
  error_key := fun _ => key_of_ofOptions_eq_error h
  undefined_refused := fun _ hv key => not_accepted_of_isNaN hv key
  any_order := fun _ hp => by rw [Options.ofList_eq_of_perm h hp]

/-- The penalty starts at an integer above its cap, which is written first. -/
def crossedOptions : Options Float :=
  .ofList [(Setting.maxPenalty.key, .real 5), (Setting.firstPenalty.key, .int 20),
    (Setting.silent.key, .text "yes")]

theorem readExactly_ofOptions_crossed :
    crossedOptions.Ascending ∧ ReadExactly crossedOptions ∧
      ∃ e, Settings.ofOptions crossedOptions = .error e ∧ e.key.dotted = "auglag.mu_init" := by
  have h : crossedOptions.Ascending := Options.ascending_ofList _
  have hread : Settings.ofOptions crossedOptions =
      .error ⟨Setting.firstPenalty.key, .aboveCap 5⟩ := rfl
  exact ⟨h, readExactly_ofOptions h, _, hread, rfl⟩

end Lagrangian

end Optima
