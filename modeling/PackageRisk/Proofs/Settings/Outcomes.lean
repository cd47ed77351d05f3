import PackageRisk.Proofs.Number.Order
import PackageRisk.Proofs.Settings.Documents
import PackageRisk.Proofs.Settings.Loading

/-!
# Outcomes of loading settings

Loading ends with settings all of whose checks passed (`validated_of_load`), with a defect of the
configuration, or with neither. The last happens just when the configuration file derails the
loading (`load_outcome_iff`), which a file with plain content does not (`not_derails_of_plain`).
-/

namespace PackageRisk

namespace Check

variable {α : Type} {bound : Bound} {asNumber : α → Number} {check : Check α} {v : Value} {a : α}

theorem holds_of_bounded (accepted : bounded bound asNumber check v = .valid a) :
    Bound.holds bound (asNumber a) := by
  obtain ⟨b, -, within⟩ := Checked.andThen_eq_valid.1 accepted
  split_ifs at within with holds
  · cases within
    exact holds
  · cases within

/-- A limited field is within its limit if what stands in for it is. -/
theorem holds_of_fieldOr {spellings : List String} {default : α} {fields : Fields}
    (standard : Bound.holds bound (asNumber default))
    (accepted : fieldOr spellings default (bounded bound asNumber check) fields = .valid a) :
    Bound.holds bound (asNumber a) := by
  rcases fieldOr_eq_valid accepted with rfl | ⟨v, passed⟩
  · exact standard
  · exact holds_of_bounded passed

end Check

namespace Settings

/-- Settings within all limits: the bounds of scores do not cross, weights and the threshold are not
negative, and what has to be positive is. -/
structure Validated (settings : Settings) : Prop where
  uncrossed : settings.scoring.max.lt settings.scoring.min = false
  weights : ∀ rule ∈ settings.rules, ∀ weight, rule.2.weight = some weight →
    (Number.int 0).le weight
  archiveTimeout : (Number.int 0).lt settings.archives.timeout
  maxLargestFiles : 1 ≤ settings.archives.maxLargestFiles
  maxArchiveSize : 0 < settings.archives.maxArchiveSize
  registryTimeout : (Number.int 0).lt settings.registry.timeout
  threshold : (Number.int 0).le settings.threshold

variable {d : Disk} {names : List String} {file : Option (List String)} {env : Environment}
  {settings : Settings} {fields : Fields}

theorem weights_of_check (accepted : Settings.check (.object fields) = .valid settings) :
    ∀ rule ∈ settings.rules, ∀ weight, rule.2.weight = some weight →
      (Number.int 0).le weight := by
  intro rule among weight given
  rcases fieldOr_eq_valid (parts_of_check accepted).rules with none | ⟨v, passed⟩
  · rw [none] at among
    cases among
  · obtain ⟨_, checked⟩ := dictionary_eq_valid passed rule among
    obtain ⟨_, -, nonneg⟩ := weight_of_check checked given
    exact nonneg

theorem validated_of_check (accepted : Settings.check (.object fields) = .valid settings) :
    settings.Validated := by
  have parts := parts_of_check accepted
  have archives := ArchiveSettings.parts_of_check parts.archives
  have registry := RegistrySettings.parts_of_check parts.registry
  constructor
  case uncrossed => exact (ScoreBounds.parts_of_check parts.scoring).uncrossed
  case weights => exact weights_of_check accepted
  case archiveTimeout => exact Check.holds_of_fieldOr (by decide +kernel) archives.timeout
  case maxLargestFiles =>
    have holds := Check.holds_of_fieldOr (by decide +kernel) archives.maxLargestFiles
    exact Number.le_int.1 holds
  case maxArchiveSize =>
    have holds := Check.holds_of_fieldOr (by decide +kernel) archives.maxArchiveSize
    exact Number.lt_int.1 holds
  case registryTimeout => exact Check.holds_of_fieldOr (by decide +kernel) registry.timeout
  case threshold => exact Check.holds_of_fieldOr (by decide +kernel) parts.threshold

theorem validated_of_load (loaded : load d file env = .ok settings) : settings.Validated := by
  obtain ⟨fields, -, accepted⟩ := load_eq_ok_iff.1 loaded
  exact validated_of_check accepted

/-- A file that is reached does not derail the loading if it is a text with few openers and no long
run of digits. -/
theorem not_derails_of_plain {l : Location} (found : d.resolve names = .ok l)
    (plain : ∀ content, Holds d names content → ∃ text,
      Text.ofUtf8? content.toList = some text ∧
      Json.openers text.toList ≤ maxDepth ∧ ¬Json.HasLongRun text.toList) :
    ¬Derails d names := by
  have reads {content : ByteArray} {text : String} (holds : Holds d names content)
      (decoded : Text.ofUtf8? content.toList = some text) :
      (∃ v, Json.read maxDepth text = .ok v) ∨ Json.read maxDepth text = .error .malformed := by
    obtain ⟨_, same, shallow, short⟩ := plain content holds
    obtain rfl := Option.some.inj (decoded.symm.trans same)
    exact Json.read_of_plain shallow short
  rintro (lost | ⟨holds, garbled⟩ | ⟨holds, decoded, deep⟩ | ⟨holds, decoded, long⟩)
  · cases found.symm.trans lost
  · obtain ⟨_, decoded, -⟩ := plain _ holds
    cases garbled.symm.trans decoded
  · rcases reads holds decoded with ⟨v, read⟩ | malformed
    · cases deep.symm.trans read
    · cases deep.symm.trans malformed
  · rcases reads holds decoded with ⟨v, read⟩ | malformed
    · cases long.symm.trans read
    · cases long.symm.trans malformed

/-- A configuration file of nothing but the digit one. -/
def numbered (digits : Nat) : Disk :=
  ⟨[(["c.json"], .file ⟨(List.replicate digits 0x31).toArray⟩)]⟩

theorem numbered_derails {n : Nat} (long : Json.maxDigits ≤ n) :
    Derails (numbered (n + 1)) ["c.json"] := by
  have ascii : ∀ b ∈ List.replicate (n + 1) (0x31 : UInt8), b < 0x80 := by
    intro b mem
    rw [List.eq_of_mem_replicate mem]
    decide
  have ones : ∀ c ∈ List.replicate n '1', c.isDigit := by
    intro c mem
    rw [List.eq_of_mem_replicate mem]
    rfl
  refine .digits ⟨["c.json"], rfl, rfl, rfl⟩ ?_ (Json.read_of_digits ones ?_)
  · rw [toList_eq, List.toList_toArray, Text.ofUtf8?_of_ascii ascii, List.map_replicate,
      List.replicate_succ]
    rfl
  · rwa [List.length_replicate]

end Settings

end PackageRisk
