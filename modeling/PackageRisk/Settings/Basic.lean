import PackageRisk.Value.Basic

/-!
# Settings

How scoring is configured: the bounds of a score, what is known about single rules, limits on
archives, where the registry is, and the score that a package has to reach. Numbers keep the
form in which they were given.
-/

namespace PackageRisk

/-- The score of a package without findings, and the bounds of every score. -/
structure ScoreBounds where
  base : Number
  min : Number
  max : Number
  deriving DecidableEq, Repr, Inhabited

/-- What is configured for one rule; without a weight the rule has its own. -/
structure RuleSettings where
  enabled : Bool
  weight : Option Number
  options : Fields
  deriving Inhabited

/-- Limits on the retrieval and inspection of archives. -/
structure ArchiveSettings where
  timeout : Number
  tempDir : Option String
  maxLargestFiles : Int
  maxArchiveSize : Int
  deriving Inhabited

/-- Where the registry is and how many seconds it has to answer. -/
structure RegistrySettings where
  url : String
  timeout : Number
  deriving Inhabited

/-- The whole configuration. -/
structure Settings where
  scoring : ScoreBounds
  rules : List (String × RuleSettings)
  archives : ArchiveSettings
  registry : RegistrySettings
  threshold : Number
  deriving Inhabited

/-- Seconds as a binary64 number. -/
def Number.seconds (n : Nat) : Number := .float (.ofInt n)

def ScoreBounds.standard : ScoreBounds := ⟨100, 0, 100⟩

def RuleSettings.standard : RuleSettings := ⟨true, none, []⟩

def ArchiveSettings.standard : ArchiveSettings := ⟨.seconds 60, none, 10, 50000000⟩

def RegistrySettings.standard : RegistrySettings :=
  ⟨"https://registry.npmjs.org", .seconds 30⟩

def Settings.standard : Settings :=
  ⟨.standard, [], .standard, .standard, 70⟩

/-- An optional number as a value. -/
def Value.ofNumber? (n : Option Number) : Value :=
  (n.map Value.number).getD .null

def ScoreBounds.toValue (b : ScoreBounds) : Value :=
  .object [("base_score", .number b.base), ("min_score", .number b.min),
    ("max_score", .number b.max)]

def RuleSettings.toValue (r : RuleSettings) : Value :=
  .object [("enabled", .bool r.enabled), ("weight", .ofNumber? r.weight),
    ("options", .object r.options)]

def ArchiveSettings.toValue (a : ArchiveSettings) : Value :=
  .object [("timeout", .number a.timeout), ("temp_dir", (a.tempDir.map Value.text).getD .null),
    ("max_largest_files", .int a.maxLargestFiles), ("max_tarball_size", .int a.maxArchiveSize)]

def RegistrySettings.toValue (r : RegistrySettings) : Value :=
  .object [("url", .text r.url), ("timeout", .number r.timeout)]

/-- Settings as an object. -/
def Settings.toValue (s : Settings) : Value :=
  .object [("scoring", s.scoring.toValue),
    ("rules", .object (s.rules.map fun r => (r.1, r.2.toValue))),
    ("tarball", s.archives.toValue), ("registry", s.registry.toValue),
    ("threshold", .number s.threshold)]

/-- What is configured for a rule. -/
def Settings.rule (s : Settings) (name : String) : RuleSettings :=
  (Fields.get? s.rules name).getD .standard

end PackageRisk
