import PackageRisk.Band
import PackageRisk.Registry
import PackageRisk.Settings.Basic

/-!
# Scores

A package starts with the base score; each rule takes its deduction off and adds its bonus,
and the sum is brought between the bounds. Rules are evaluated in order. One that fails counts
nothing and its report says why; only a rule without an evaluation ends the scoring.
-/

namespace PackageRisk

/-- The score of a package with its band and the reports behind it. -/
structure Score where
  score : Number
  band : Band
  reports : List Report
  package : String
  version : String
  deriving Inhabited

def Score.toValue (s : Score) : Value :=
  .object [("score", .number s.score), ("band", s.band.toValue),
    ("rule_results", .list (s.reports.map Report.toValue)),
    ("package_name", .text s.package), ("package_version", .text s.version)]

/-- The text that records a failure: its wording, or its name if the wording is empty. -/
def Failure.reason (e : Failure) : String :=
  if e.message.isEmpty then e.kindName else e.message

/-- A score after a result: less its deduction and more its bonus. -/
def RuleResult.applyTo (r : RuleResult) (score : Number) : Except Fault Number :=
  match (score.sub? r.deduction).bind (·.add? r.bonus) with
  | some total => .ok total
  | none => .error (.overflow "int too large to convert to float")

/-- The weight of a rule as its report shows it; what is not given counts as zero. -/
def Rule.reportedWeight (rule : Rule) : Except Failure Number :=
  let weight := if rule.weight.isGiven then rule.weight else .number 0
  (Report.checkWeight weight).orFail "RuleReport"

namespace Scoring

/-- The result of a rule; a failure becomes a result that records it. -/
def resultOf (rule : Rule) (p : Package) : Session RuleResult := do
  match ← (rule.answer p).attempt with
  | .ok result => return result
  | .error (.unimplementedRule kind) => Session.fail (.unimplementedRule kind)
  | .error e => return .failed e.reason

/-- The report of a rule. -/
def reportOf (rule : Rule) (p : Package) : Session Report := do
  let result ← resultOf rule p
  let weight ← Session.lift rule.reportedWeight
  return { rule := rule.name, weight, result }

/-- The reports of rules in order, and the score that is left of another one. -/
def run (p : Package) : Number → List Rule → Session (Number × List Report)
  | total, [] => pure (total, [])
  | total, rule :: rest => do
    let report ← reportOf rule p
    let next ← Session.liftFault (report.result.applyTo total)
    let (final, reports) ← run p next rest
    return (final, report :: reports)

/-- The score of a package. -/
def score (bounds : ScoreBounds) (rules : List Rule) (p : Package) : Session Score := do
  let (total, reports) ← run p bounds.base rules
  let final := Number.clamp bounds.min bounds.max total
  let band ← Session.lift (Band.ofScore (.number final))
  return { score := final, band, reports, package := p.name, version := p.version }

/-- The score of a package that nobody checked yet. -/
def scoreDocument (bounds : ScoreBounds) (rules : List Rule) (document : Value) :
    Session Score :=
  match document with
  | .null => Session.fail .missingPackage
  | v => match Package.check v with
    | .valid p => score bounds rules p
    | .invalid issues => Session.fail (.invalidPackage issues)

end Scoring

end PackageRisk
