import Mathlib.Tactic.SplitIfs
import PackageRisk.Proofs.Results
import PackageRisk.Settings.Check

/-!
# Parts of accepted settings

Settings that were accepted have all their parts from fields that passed their own checks. A group
of settings that is absent counts as an empty one (`parts_of_check`).
-/

namespace PackageRisk

variable {fields : Fields}

namespace ScoreBounds

variable {bounds : ScoreBounds}

theorem ordered_eq_valid {made : ScoreBounds} (accepted : made.ordered = .valid bounds) :
    made.max.lt made.min = false ∧ made = bounds := by
  unfold ScoreBounds.ordered at accepted
  split_ifs at accepted with crossed
  · cases accepted
  · exact ⟨Bool.eq_false_iff.2 crossed, Checked.valid.inj accepted⟩

/-- Where the numbers of accepted bounds are from. -/
structure Parts (fields : Fields) (bounds : ScoreBounds) : Prop where
  base : fieldOr ["base_score", "baseScore"] 100 .measure fields = .valid bounds.base
  min : fieldOr ["min_score", "minScore"] 0 .measure fields = .valid bounds.min
  max : fieldOr ["max_score", "maxScore"] 100 .measure fields = .valid bounds.max
  uncrossed : bounds.max.lt bounds.min = false

theorem parts_of_check (accepted : ScoreBounds.check (.object fields) = .valid bounds) :
    Parts fields bounds := by
  obtain ⟨made, fieldwise, ordered⟩ := Checked.andThen_eq_valid.1 accepted
  obtain ⟨_, most, two, third, rfl⟩ := Checked.seq_eq_valid.1 fieldwise
  obtain ⟨_, least, one, second, rfl⟩ := Checked.seq_eq_valid.1 two
  obtain ⟨base, first, rfl⟩ := Checked.map_eq_valid.1 one
  obtain ⟨uncrossed, rfl⟩ := ordered_eq_valid ordered
  exact ⟨first, second, third, uncrossed⟩

end ScoreBounds

namespace ArchiveSettings

/-- Where accepted limits on archives are from. -/
structure Parts (fields : Fields) (archives : ArchiveSettings) : Prop where
  timeout : fieldOr ["timeout"] (.seconds 60) (.bounded (.above 0) id .measure) fields =
    .valid archives.timeout
  tempDir : fieldOr ["temp_dir", "tempDir"] none (.optional .path) fields =
    .valid archives.tempDir
  maxLargestFiles : fieldOr ["max_largest_files"] 10 (.bounded (.atLeast 1) .int .whole) fields =
    .valid archives.maxLargestFiles
  maxArchiveSize :
    fieldOr ["max_tarball_size"] 50000000 (.bounded (.above 0) .int .whole) fields =
      .valid archives.maxArchiveSize

theorem parts_of_check {archives : ArchiveSettings}
    (accepted : ArchiveSettings.check (.object fields) = .valid archives) :
    Parts fields archives := by
  obtain ⟨_, _, three, fourth, rfl⟩ := Checked.seq_eq_valid.1 accepted
  obtain ⟨_, _, two, third, rfl⟩ := Checked.seq_eq_valid.1 three
  obtain ⟨_, _, one, second, rfl⟩ := Checked.seq_eq_valid.1 two
  obtain ⟨_, first, rfl⟩ := Checked.map_eq_valid.1 one
  exact ⟨first, second, third, fourth⟩

end ArchiveSettings

namespace RegistrySettings

/-- Where the accepted place of the registry is from. -/
structure Parts (fields : Fields) (registry : RegistrySettings) : Prop where
  url : fieldOr ["url"] standard.url .text fields = .valid registry.url
  timeout : fieldOr ["timeout"] (.seconds 30) (.bounded (.above 0) id .measure) fields =
    .valid registry.timeout

theorem parts_of_check {registry : RegistrySettings}
    (accepted : RegistrySettings.check (.object fields) = .valid registry) :
    Parts fields registry := by
  obtain ⟨_, _, one, second, rfl⟩ := Checked.seq_eq_valid.1 accepted
  obtain ⟨_, first, rfl⟩ := Checked.map_eq_valid.1 one
  exact ⟨first, second⟩

end RegistrySettings

namespace Settings

/-- The fields of a group of settings. -/
def groupOf (fields : Fields) (group : String) : Fields :=
  match Fields.get? fields group with
  | some (.object inner) => inner
  | _ => []

/-- Where the parts of accepted settings are from. -/
structure Parts (fields : Fields) (settings : Settings) : Prop where
  scoring : ScoreBounds.check (.object (groupOf fields "scoring")) = .valid settings.scoring
  rules : fieldOr ["rules"] [] (.dictionary RuleSettings.check) fields = .valid settings.rules
  archives : ArchiveSettings.check (.object (groupOf fields "tarball")) = .valid settings.archives
  registry : RegistrySettings.check (.object (groupOf fields "registry")) =
    .valid settings.registry
  threshold : fieldOr ["threshold"] 70 (.bounded (.atLeast 0) id .measure) fields =
    .valid settings.threshold

/-- A group that is absent counts as an empty one, if that is what stands in for it. -/
theorem group_eq_valid {α : Type} {check : Check α} {group : String} {standard made : α}
    (empty : check (.object []) = .valid standard)
    (record : ∀ v, check v = .valid made → ∃ inner, v = .object inner)
    (accepted : fieldOr [group] standard check fields = .valid made) :
    check (.object (groupOf fields group)) = .valid made := by
  rw [fieldOr_cons] at accepted
  unfold groupOf
  rcases found : Fields.get? fields group with _ | v
  · rw [found] at accepted
    exact empty.trans accepted
  · rw [found] at accepted
    have checked := Checked.inside_eq_valid.1 accepted
    obtain ⟨inner, rfl⟩ := record v checked
    exact checked

theorem parts_of_check {settings : Settings}
    (accepted : Settings.check (.object fields) = .valid settings) : Parts fields settings := by
  have isObject {α : Type} {name : String} {check : Fields → Checked α} {made : α} (v : Value)
      (checked : record name check v = .valid made) : ∃ inner, v = .object inner := by
    obtain ⟨inner, same, -⟩ := record_eq_valid checked
    exact ⟨inner, same⟩
  obtain ⟨_, _, four, fifth, rfl⟩ := Checked.seq_eq_valid.1 accepted
  obtain ⟨_, _, three, fourth, rfl⟩ := Checked.seq_eq_valid.1 four
  obtain ⟨_, _, two, third, rfl⟩ := Checked.seq_eq_valid.1 three
  obtain ⟨_, _, one, second, rfl⟩ := Checked.seq_eq_valid.1 two
  obtain ⟨_, first, rfl⟩ := Checked.map_eq_valid.1 one
  exact ⟨group_eq_valid rfl isObject first, second, group_eq_valid rfl isObject third,
    group_eq_valid rfl isObject fourth, fifth⟩

/-! ## Rules -/

variable {settings : Settings} {document : Value}

theorem dictionary_eq_valid {α : Type} {check : Check α} {v : Value}
    {checked : List (String × α)} (accepted : Check.dictionary check v = .valid checked) :
    ∀ field ∈ checked, ∃ v, check v = .valid field.2 := by
  cases v
  case object fields =>
    intro field mem
    obtain ⟨given, -, -, checked⟩ :=
      exists_of_mem_right (Check.fieldsOf_eq_valid_iff.1 accepted) field mem
    exact ⟨given.2, checked⟩
  all_goals cases accepted

theorem optional_eq_valid {α : Type} {check : Check α} {v : Value} {a : α}
    (accepted : Check.optional check v = .valid (some a)) : check v = .valid a := by
  have mapped : (check v).map some = .valid (some a) := by
    cases v
    case null => cases accepted
    all_goals exact accepted
  obtain ⟨b, checked, same⟩ := Checked.map_eq_valid.1 mapped
  rwa [Option.some.inj same] at checked

/-- A weight that was accepted is a binary64 number that is not negative. -/
theorem weight_of_check {made : RuleSettings} {v : Value} {n : Number}
    (accepted : RuleSettings.check v = .valid made) (weight : made.weight = some n) :
    ∃ x, n = .float x ∧ Number.le 0 n = true := by
  obtain ⟨fields, -, checked⟩ := record_eq_valid accepted
  obtain ⟨_, options, two, -, rfl⟩ := Checked.seq_eq_valid.1 checked
  obtain ⟨_, given, one, second, rfl⟩ := Checked.seq_eq_valid.1 two
  obtain ⟨enabled, -, rfl⟩ := Checked.map_eq_valid.1 one
  obtain rfl : given = some n := weight
  rcases fieldOr_eq_valid second with absent | ⟨v, given⟩
  · cases absent
  · obtain ⟨m, measured, bounded⟩ := Checked.andThen_eq_valid.1 (optional_eq_valid given)
    obtain ⟨x, -, rfl⟩ := Checked.map_eq_valid.1 measured
    split_ifs at bounded with holds
    · cases bounded
      exact ⟨x, rfl, holds⟩
    · cases bounded

theorem rule_of_check (accepted : Settings.check document = .valid settings) (name : String) :
    settings.rule name = .standard ∨ ∃ v, RuleSettings.check v = .valid (settings.rule name) := by
  obtain ⟨fields, rfl, -⟩ := record_eq_valid accepted
  unfold Settings.rule
  rcases found : Fields.get? settings.rules name with _ | made
  · exact .inl rfl
  · refine .inr ?_
    obtain ⟨before, after, split, -⟩ := List.lookup_eq_some_iff.1 found
    have mem : (name, made) ∈ settings.rules := by simp [split]
    rcases fieldOr_eq_valid (parts_of_check accepted).rules with none | ⟨v, given⟩
    · rw [none] at mem
      cases mem
    · exact dictionary_eq_valid given _ mem

end Settings

end PackageRisk
