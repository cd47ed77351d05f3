import PackageRisk.Report.Basic
import PackageRisk.Validation.Numbers

/-!
# Checks of findings and results

Rules of other authors hand in findings and results as plain documents; these checks turn them
into records.
-/

namespace PackageRisk

/-- One of the named values of an enumeration. -/
def Check.among {α : Type} (name : α → String) (all : List α) : Check α := fun v =>
  match v with
  | .text s => match all.find? fun a => name a == s with
    | some a => .valid a
    | none => .fail (.notAmong (all.map name))
  | _ => .fail (.notAmong (all.map name))

def Severity.check : Check Severity :=
  .among Severity.name Severity.all

def RiskLevel.check : Check RiskLevel :=
  .among RiskLevel.name RiskLevel.all

/-- The fields of a finding that are not its own. -/
def Finding.own : List String := ["type", "description", "severity"]

def Finding.check : Check Finding :=
  record "Finding" fun fields =>
    (fun type description severity =>
      { type, description, severity,
        extras := fields.filter fun f => !Finding.own.contains f.1 })
      <$> required "type" .text fields
      <*> required "description" .text fields
      <*> fieldOr ["severity"] .medium Severity.check fields

/-- Zero in place of null. -/
def Check.orZero {α : Type} (check : Check α) : Check α
  | .null => check (.number 0)
  | v => check v

/-- Nothing in place of null, for objects. -/
def Check.orEmptyObject {α : Type} (check : Check α) : Check α
  | .null => check (.object [])
  | v => check v

/-- Nothing in place of null, for lists. -/
def Check.orEmptyList {α : Type} (check : Check α) : Check α
  | .null => check (.list [])
  | v => check v

def RuleResult.check : Check RuleResult :=
  record "RuleResult" fun fields =>
    RuleResult.mk
      <$> fieldOr ["deduction"] 0 .penalty fields
      <*> fieldOr ["bonus"] 0 (.orZero .penalty) fields
      <*> fieldOr ["details"] [] .object fields
      <*> fieldOr ["riskLevel", "risk_level"] .none RiskLevel.check fields

/-- The two forms of a weight that a report may show. -/
def Report.checkWeight (weight : Value) : Checked Number :=
  (Check.number weight).inside (.key "weight")

end PackageRisk
