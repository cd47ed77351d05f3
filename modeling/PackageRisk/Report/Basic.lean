import PackageRisk.Value.Basic

/-!
# Findings, results and reports

What a rule says about a package: findings of some severity, a deduction or a bonus, and a
risk level. A report pairs a result with the rule that it came from, and the reports of all
rules stand behind a score.
-/

namespace PackageRisk

/-- How grave one observation is. -/
inductive Severity where
  | low
  | medium
  | high
  | critical
  deriving DecidableEq, Repr, Inhabited

/-- How grave the observations of one rule are together; `error` when the rule failed. -/
inductive RiskLevel where
  | none
  | low
  | medium
  | high
  | error
  deriving DecidableEq, Repr, Inhabited

/-- The place of a severity in order of gravity. -/
def Severity.rank : Severity → Nat
  | .low => 0
  | .medium => 1
  | .high => 2
  | .critical => 3

/-- The graver of two severities. -/
def Severity.graver (a b : Severity) : Severity :=
  if a.rank < b.rank then b else a

def Severity.name : Severity → String
  | .low => "low"
  | .medium => "medium"
  | .high => "high"
  | .critical => "critical"

def RiskLevel.name : RiskLevel → String
  | .none => "none"
  | .low => "low"
  | .medium => "medium"
  | .high => "high"
  | .error => "error"

/-- The severities, mildest first. -/
def Severity.all : List Severity := [.low, .medium, .high, .critical]

/-- The risk levels, mildest first. -/
def RiskLevel.all : List RiskLevel := [.none, .low, .medium, .high, .error]

/-- One observation of a rule, with fields of its own in `extras`. -/
structure Finding where
  type : String
  description : String
  severity : Severity
  extras : Fields
  deriving Inhabited

/-- A finding as an object. -/
def Finding.toValue (f : Finding) : Value :=
  .object ([("type", .text f.type), ("description", .text f.description),
    ("severity", .text f.severity.name)] ++ f.extras)

/-- What one rule says about one package. -/
structure RuleResult where
  deduction : Number
  bonus : Number
  details : Fields
  level : RiskLevel
  deriving Inhabited

namespace RuleResult

/-- The result of a rule with nothing to say. -/
def empty : RuleResult := ⟨0, 0, [], .none⟩

/-- A result without effect, for the given reason. -/
def neutral (reason : String) : RuleResult :=
  ⟨0, 0, [("reason", .text reason)], .none⟩

/-- The result of a rule that is switched off. -/
def disabled : RuleResult := neutral "Rule is disabled"

/-- A result without effect that records a failure. -/
def failed (message : String) : RuleResult :=
  ⟨0, 0, [("error", .text message)], .error⟩

def toValue (r : RuleResult) : Value :=
  .object [("deduction", .number r.deduction), ("bonus", .number r.bonus),
    ("details", .object r.details), ("risk_level", .text r.level.name)]

end RuleResult

/-- A result and the rule that it came from. -/
structure Report where
  rule : String
  weight : Number
  result : RuleResult
  deriving Inhabited

def Report.toValue (r : Report) : Value :=
  .object [("rule_name", .text r.rule), ("weight", .number r.weight),
    ("result", r.result.toValue)]

end PackageRisk
