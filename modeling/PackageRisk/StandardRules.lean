import PackageRisk.Registry
import PackageRisk.Rules.BillOfMaterials
import PackageRisk.Rules.HiddenCode
import PackageRisk.Rules.InstallScripts
import PackageRisk.Rules.NetworkAccess
import PackageRisk.Rules.Publication
import PackageRisk.Rules.Signing
import PackageRisk.Settings.Basic

/-!
# The standard rules

The six rules that packages are scored with, in the order of their reports. Settings may give
each a weight and options of its own or switch it off; a rule that is switched off stays in
its place.
-/

namespace PackageRisk

/-- A rule whose results need nothing but the package. -/
def Rule.pure (kind name about : String) (weight : Value)
    (evaluate : Value → Package → Except Failure RuleResult) : Rule :=
  { kind, name, weight, description := .text about, enabled := true,
    evaluation := .whileEnabled fun p => Session.lift (evaluate weight p) }

def NetworkAccess.toRule (rule : NetworkAccess) : Rule :=
  Rule.pure "NetworkCallRule" ruleName about rule.weight fun _ p => rule.evaluate p

def HiddenCode.toRule (rule : HiddenCode) : Rule :=
  { kind := "ObfuscationRule", name := ruleName, weight := rule.weight,
    description := .text about, enabled := true, evaluation := .whileEnabled rule.evaluate }

def InstallScripts.rule (weight : Value) : Rule :=
  Rule.pure "LifecycleScriptRiskRule" ruleName about weight evaluate

def Publication.rule (weight : Value) : Rule :=
  Rule.pure "VerifiedPublisherRule" ruleName about weight evaluate

def Signing.rule (weight : Value) : Rule :=
  Rule.pure "SignedReleasesRule" ruleName about weight evaluate

def BillOfMaterials.rule (weight : Value) : Rule :=
  Rule.pure "SBOMDetectionRule" ruleName about weight evaluate

/-- The standard rules. -/
inductive StandardRule where
  | networkAccess
  | hiddenCode
  | installScripts
  | publication
  | signing
  | billOfMaterials
  deriving DecidableEq, Repr

namespace StandardRule

/-- The standard rules in the order of their reports. -/
def all : List StandardRule :=
  [.networkAccess, .hiddenCode, .installScripts, .publication, .signing, .billOfMaterials]

def name : StandardRule → String
  | .networkAccess => NetworkAccess.ruleName
  | .hiddenCode => HiddenCode.ruleName
  | .installScripts => InstallScripts.ruleName
  | .publication => Publication.ruleName
  | .signing => Signing.ruleName
  | .billOfMaterials => BillOfMaterials.ruleName

/-- The weight of a rule for which none is configured. -/
def standardWeight : StandardRule → Number
  | .networkAccess => NetworkAccess.standardWeight
  | .hiddenCode => HiddenCode.standardWeight
  | .installScripts => InstallScripts.standardWeight
  | .publication => Publication.standardWeight
  | .signing => Signing.standardWeight
  | .billOfMaterials => BillOfMaterials.standardWeight

/-- A standard rule with a weight and options. -/
def make (rule : StandardRule) (weight : Value) (options : Fields) (inspect : Inspector) :
    Except Failure Rule :=
  match rule with
  | .networkAccess => do
    return (← Failure.ofFault (NetworkAccess.ofOptions weight options)).toRule
  | .hiddenCode => .ok (HiddenCode.toRule ⟨weight, .ofOptions options, inspect⟩)
  | .installScripts => .ok (InstallScripts.rule weight)
  | .publication => .ok (Publication.rule weight)
  | .signing => .ok (Signing.rule weight)
  | .billOfMaterials => .ok (BillOfMaterials.rule weight)

/-- A standard rule as settings configure it. -/
def configured (settings : RuleSettings) (inspect : Inspector) (rule : StandardRule) :
    Except Failure Rule := do
  let weight := settings.weight.getD rule.standardWeight
  let made ← rule.make (.number weight) settings.options inspect
  return if settings.enabled then made else made.disable

end StandardRule

/-- The standard rules as settings configure them. -/
def Settings.standardRules (settings : Settings) (inspect : Inspector) :
    Except Failure (List Rule) :=
  StandardRule.all.mapM fun rule => rule.configured (settings.rule rule.name) inspect

/-- The registry that holds the standard rules. -/
def Registry.standard (settings : Settings) (inspect : Inspector) : Except Failure Registry := do
  (← settings.standardRules inspect).foldlM Registry.add .empty

end PackageRisk
