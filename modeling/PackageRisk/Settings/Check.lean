import PackageRisk.Path
import PackageRisk.Report.Check
import PackageRisk.Settings.Basic

/-!
# Checks of settings

Each setting has two spellings, of which the one with low lines wins. Numbers that are given
become binary64; those that are not keep the form of their default.
-/

namespace PackageRisk

/-- A binary64 number in the form of settings. -/
def Check.measure : Check Number := fun v =>
  Number.float <$> Check.binary v

/-- A path, written without superfluous parts. -/
def Check.path : Check String
  | .text s => .valid (Path.parse s).text
  | _ => .fail .notPath

/-- The lower bound of scores may not be above the upper one. -/
def ScoreBounds.ordered (b : ScoreBounds) : Checked ScoreBounds :=
  if b.max.lt b.min then .fail (.crossedBounds b.min.text b.max.text) else .valid b

def ScoreBounds.check : Check ScoreBounds :=
  record "ScoringSettings" fun fields =>
    (ScoreBounds.mk
      <$> fieldOr ["base_score", "baseScore"] 100 .measure fields
      <*> fieldOr ["min_score", "minScore"] 0 .measure fields
      <*> fieldOr ["max_score", "maxScore"] 100 .measure fields).andThen ScoreBounds.ordered

def RuleSettings.check : Check RuleSettings :=
  record "RuleSettings" fun fields =>
    RuleSettings.mk
      <$> fieldOr ["enabled"] true .truth fields
      <*> fieldOr ["weight"] none (.optional (.bounded (.atLeast 0) id .measure)) fields
      <*> fieldOr ["options"] [] .object fields

def ArchiveSettings.check : Check ArchiveSettings :=
  record "TarballSettings" fun fields =>
    ArchiveSettings.mk
      <$> fieldOr ["timeout"] (.seconds 60) (.bounded (.above 0) id .measure) fields
      <*> fieldOr ["temp_dir", "tempDir"] none (.optional .path) fields
      <*> fieldOr ["max_largest_files"] 10 (.bounded (.atLeast 1) .int .whole) fields
      <*> fieldOr ["max_tarball_size"] 50000000 (.bounded (.above 0) .int .whole) fields

def RegistrySettings.check : Check RegistrySettings :=
  record "RegistrySettings" fun fields =>
    RegistrySettings.mk
      <$> fieldOr ["url"] RegistrySettings.standard.url .text fields
      <*> fieldOr ["timeout"] (.seconds 30) (.bounded (.above 0) id .measure) fields

def Settings.check : Check Settings :=
  record "Settings" fun fields =>
    Settings.mk
      <$> fieldOr ["scoring"] .standard ScoreBounds.check fields
      <*> fieldOr ["rules"] [] (.dictionary RuleSettings.check) fields
      <*> fieldOr ["tarball"] .standard ArchiveSettings.check fields
      <*> fieldOr ["registry"] .standard RegistrySettings.check fields
      <*> fieldOr ["threshold"] 70 (.bounded (.atLeast 0) id .measure) fields

end PackageRisk
