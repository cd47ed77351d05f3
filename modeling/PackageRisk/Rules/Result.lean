import PackageRisk.Package.Document
import PackageRisk.Report.Check
import PackageRisk.Tier

/-!
# From risk to result

What the rules have in common: a weight and options that may be of any kind, a deduction by
the tier of the risk that was found, and a bonus. A result is accepted only if its deduction
and its bonus are numbers that are not negative.
-/

namespace PackageRisk

/-- A fault of unchecked values as a failure. -/
def Failure.ofFault {α : Type} : Except Fault α → Except Failure α
  | .ok a => .ok a
  | .error e => .error (.fault e)

/-- A checked value, or a failure that names the record it belongs to. -/
def Checked.orFail {α : Type} (name : String) : Checked α → Except Failure α
  | .valid a => .ok a
  | .invalid issues => .error (.invalid name issues)

namespace RuleResult

/-- A result that deducts what the tier of a risk says. -/
def deducting (weight : Value) (risk : Risk) (details : Fields) : Except Failure RuleResult := do
  let tier := Tier.ofRisk risk
  let given ← Failure.ofFault (tier.deduction weight)
  let deduction ← ((Check.penalty given).inside (.key "deduction")).orFail "RuleResult"
  return ⟨deduction, 0, details, tier.level⟩

/-- A result that gives a bonus; null stands for none. -/
def rewarding (given : Value) (details : Fields) : Except Failure RuleResult := do
  let bonus ← ((Check.orZero Check.penalty given).inside (.key "bonus")).orFail "RuleResult"
  return ⟨0, bonus, details, .none⟩

end RuleResult

/-- Findings as a list of objects. -/
def Value.ofFindings (findings : List Finding) : Value :=
  .list (findings.map Finding.toValue)

/-- The options of a rule: nothing for what is not given, else a map. -/
def optionsOf (config : Value) : Except Fault Fields :=
  if config.isGiven then
    (Document.asPairs config).map fun pairs =>
      pairs.filterMap fun p => p.1.text?.map (·, p.2)
  else .ok []

/-- An option, or its default if it is absent. -/
def optionOr (options : Fields) (key : String) (fallback : Value) : Value :=
  (Fields.get? options key).getD fallback

end PackageRisk
