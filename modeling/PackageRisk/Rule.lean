import PackageRisk.Report.Check
import PackageRisk.Rules.Result
import PackageRisk.Session

/-!
# Rules

A rule has a name, a weight and a way to evaluate packages. Rules of the library answer with
a neutral result while they are switched off; rules of other authors decide for themselves,
and may answer with any document.
-/

namespace PackageRisk

/-- What an evaluation hands back: a result, or a document that has to be one. -/
inductive Outcome where
  | result (r : RuleResult)
  | document (v : Value)

/-- The result that an outcome stands for; null stands for a result without effect. -/
def Outcome.toResult : Outcome → Except Failure RuleResult
  | .result r => .ok r
  | .document .null => .ok .empty
  | .document v => (RuleResult.check v).orFail "RuleResult"

/-- How a rule evaluates packages. -/
inductive Evaluation where
  | missing
  | always (run : Package → Session Outcome)
  | whileEnabled (run : Package → Session RuleResult)

/-- A rule; its weight and its description may be of any kind. -/
structure Rule where
  kind : String
  name : String
  weight : Value
  description : Value
  enabled : Bool
  evaluation : Evaluation

namespace Rule

/-- The kind of a rule without an evaluation of its own. -/
def baseKind : String := "BaseRule"

/-- A rule without an evaluation of its own, from a name and options of any kind. -/
def base (name weight description config : Value) : Except Failure Rule :=
  match name with
  | .text s =>
    if s.isEmpty then .error (.rejectedRule .nameRequired)
    else do
      let _ ← Failure.ofFault (optionsOf config)
      return { kind := baseKind, name := s, weight, description, enabled := true,
               evaluation := .missing }
  | _ => .error (.rejectedRule .nameRequired)

/-- What a rule says about a package. -/
def evaluate (rule : Rule) (p : Package) : Session Outcome :=
  match rule.evaluation with
  | .missing => Session.fail (.unimplementedRule rule.kind)
  | .always run => run p
  | .whileEnabled run =>
    if rule.enabled then do return .result (← run p) else pure (.result .disabled)

/-- The result that a rule gives for a package. -/
def answer (rule : Rule) (p : Package) : Session RuleResult := do
  Session.lift (← rule.evaluate p).toResult

def enable (rule : Rule) : Rule := { rule with enabled := true }

def disable (rule : Rule) : Rule := { rule with enabled := false }

/-- What reports tell about a rule. -/
def metadata (rule : Rule) : Value :=
  .object [("name", .text rule.name), ("weight", rule.weight),
    ("description", rule.description), ("enabled", .bool rule.enabled)]

/-- A rule as messages show it. -/
def shown (rule : Rule) : String :=
  rule.kind ++ "(name=" ++ Text.quoted rule.name ++ ", weight=" ++ rule.weight.shown ++
    ", enabled=" ++ (Value.bool rule.enabled).shown ++ ")"

end Rule

end PackageRisk
