import PackageRisk.Text.Blank

/-!
# Continuous integration

Which build service a program runs under, told from the variables of its environment.
-/

namespace PackageRisk

/-- The variables of an environment. -/
abbrev Environment := List (String × String)

/-- A build service: its name, its variable, and the value it is known by, if a certain one. -/
structure BuildService where
  name : String
  flag : String
  expected : Option String
  deriving Repr

/-- The services that are recognised, in the order in which they are looked for. -/
def buildServices : List BuildService :=
  [⟨"github-actions", "GITHUB_ACTIONS", some "true"⟩, ⟨"gitlab-ci", "GITLAB_CI", some "true"⟩,
   ⟨"jenkins", "JENKINS_URL", none⟩, ⟨"circleci", "CIRCLECI", some "true"⟩,
   ⟨"travis", "TRAVIS", some "true"⟩, ⟨"buildkite", "BUILDKITE", some "true"⟩,
   ⟨"teamcity", "TEAMCITY_VERSION", none⟩, ⟨"bamboo", "BAMBOO_BUILDKEY", none⟩,
   ⟨"gocd", "GO_PIPELINE_NAME", none⟩]

/-- Whether an environment shows a service; letter case does not count. -/
def BuildService.isShownBy (service : BuildService) (env : Environment) : Bool :=
  match env.lookup service.flag with
  | none => false
  | some value => match service.expected with
    | none => true
    | some expected => Text.lower value == expected

/-- Whether a variable says "true". -/
def saysTrue (env : Environment) (flag : String) : Bool :=
  match env.lookup flag with
  | some value => Text.lower value == "true"
  | none => false

/-- The service that an environment belongs to, if any. -/
def buildService? (env : Environment) : Option String :=
  match buildServices.find? (·.isShownBy env) with
  | some service => some service.name
  | none =>
    if saysTrue env "CI" || saysTrue env "CONTINUOUS_INTEGRATION" then some "generic" else none

end PackageRisk
