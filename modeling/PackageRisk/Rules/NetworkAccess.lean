import PackageRisk.Rules.Result
import PackageRisk.Script.Findings

/-!
# Network access on installation

Scripts that hooks run are searched for signs of network access twice: with patterns over
their text, and, if they are scripts of the language of packages, in their syntax tree. A
dependency whose name contains the name of a network module counts half a sign.
-/

namespace PackageRisk

/-- A sign of network access: a pattern and what it stands for. -/
structure NetworkPattern where
  pattern : Pattern
  label : String

/-- The patterns over script text; letter case does not count. -/
def networkPatterns : List NetworkPattern :=
  [⟨.all [.boundary, .lit "fetch", .blanks, .one (.only '(')], "fetch() call"⟩,
   ⟨.all [.boundary, .lit "XMLHttpRequest"], "XMLHttpRequest usage"⟩,
   ⟨.all [.boundary, .lit "require", .blanks, .one (.only '('), .blanks, .quote, .lit "http",
      .opt (.one (.only 's')), .quote, .blanks, .one (.only ')')], "require of http/https"⟩,
   ⟨.all [.boundary, .lit "require", .blanks, .one (.only '('), .blanks, .quote,
      .alt (.lit "request") (.lit "axios"), .quote, .blanks, .one (.only ')')],
    "require of HTTP client library"⟩,
   ⟨.all [.boundary, .lit "import", .gap, .many .notNewline 0 true, .gap, .lit "from", .gap,
      .quote, .lit "http", .opt (.one (.only 's')), .lit "://"], "ES import from URL"⟩,
   ⟨.all [.boundary, .lit "import", .blanks, .one (.only '('), .blanks, .quote, .lit "http",
      .opt (.one (.only 's')), .lit "://"], "dynamic import from URL"⟩]

/-- Whether a pattern matches somewhere in a script. -/
def NetworkPattern.occursIn (p : NetworkPattern) (script : String) : Bool :=
  p.pattern.occursIn true script

/-- What a pattern that matches a script is reported as. -/
def NetworkPattern.finding (p : NetworkPattern) : Finding :=
  { type := "network-pattern",
    description := "Network call pattern detected in lifecycle script: " ++ p.label,
    severity := .medium, extras := [("pattern", .text p.pattern.source)] }

/-- The rule about network access. -/
structure NetworkAccess where
  weight : Value
  modules : List Value
  analyze : String → Except Fault (List Finding)

namespace NetworkAccess

/-- The name of the rule. -/
def ruleName : String := "external-network-call"

/-- What the rule is about. -/
def about : String := "Detects external network calls in package code and lifecycle scripts"

def standardWeight : Number := 20

/-- The items of an option that lists modules. -/
def moduleItems : Value → Except Fault (List Value)
  | .list items => .ok items
  | .text s => .ok (s.toList.map fun c => .text (String.singleton c))
  | .object fields => .ok (fields.map fun f => .text f.1)
  | .bytes b => .ok (b.toList.map fun x => .nat x.toNat)
  | v => .error (.wrongKind ("'" ++ v.kindName ++ "' object is not iterable"))

/-- The modules that options add to the known ones. -/
def modulesFor (options : Fields) : Except Fault (List Value) := do
  let more ← moduleItems (optionOr options "extra_network_modules" (.list []))
  return Script.networkModules.map .text ++ more

/-- The rule with an analyzer of its own. -/
def withAnalyzer (weight : Value) (options : Fields)
    (analyze : String → Except Fault (List Finding)) : Except Fault NetworkAccess := do
  return { weight, modules := ← modulesFor options, analyze }

/-- The rule that looks into syntax trees; its modules have to be possible keys. -/
def ofOptions (weight : Value) (options : Fields) : Except Fault NetworkAccess := do
  let modules ← modulesFor options
  match modules.find? fun m => !m.canBeKey with
  | some m => .error (.wrongKind ("unhashable type: '" ++ m.kindName ++ "'"))
  | none => return { weight, modules, analyze := Script.analyze modules }

/-- The signs in a script: those of patterns, then those of the syntax tree. -/
def scriptSigns (rule : NetworkAccess) (script : String) : Except Fault (List Finding) := do
  let analyzed ← rule.analyze script
  return (networkPatterns.filter (·.occursIn script)).map NetworkPattern.finding ++ analyzed

/-- The scripts that have signs, with them. -/
def hookSigns (rule : NetworkAccess) :
    List (String × String) → Except Fault (List (String × String × List Finding))
  | [] => .ok []
  | (hook, script) :: rest => do
    let signs ← rule.scriptSigns script
    let later ← hookSigns rule rest
    return if signs.isEmpty then later else (hook, script, signs) :: later

/-- What is reported for a script with signs. -/
def hookFinding (hook script : String) (signs : List Finding) : Finding :=
  { type := "lifecycle-script",
    description := toString signs.length ++ " network indicator(s) in " ++ hook ++ " script",
    severity := .high,
    extras := [("source", .text "lifecycle-script"), ("hook", .text hook),
      ("script", .text (normalizedScript script)), ("findings", .ofFindings signs),
      ("risk", .nat signs.length)] }

/-- The dependencies of several groups; a later group decides the version. -/
def mergedDependencies {α : Type} (groups : List (List (String × α))) : List (String × α) :=
  groups.foldl Fields.merge []

/-- The groups of dependencies that an installation brings along. Those of peers are not: the
package that installs this one brings them. -/
def installedGroups : List String := ["dependencies", "devDependencies", "optionalDependencies"]

/-- The dependencies of those groups, from a map of all groups. -/
def installedDependencies {α : Type} (groups : List (String × List (String × α))) :
    List (String × α) :=
  mergedDependencies (installedGroups.map fun group => (Fields.get? groups group).getD [])

/-- The first module whose name is part of another name. -/
def moduleIn? (name : String) : List Value → Except Fault (Option Value)
  | [] => .ok none
  | .text m :: rest =>
    if Text.contains m.toList name.toList then .ok (some (.text m)) else moduleIn? name rest
  | v :: _ => .error <| .wrongKind <|
      "'in <string>' requires string as left operand, not " ++ v.kindName

/-- What is reported for a dependency that names a module. -/
def dependencyFinding (name : String) (version module : Value) : Finding :=
  { type := "network-dependency", description := "Network-related dependency: " ++ name,
    severity := .low,
    extras := [("package", .text name), ("version", version), ("module", module)] }

/-- The dependencies that name a module, in their order. -/
def dependencySigns (modules : List Value) :
    List (String × Value) → Except Fault (List Finding)
  | [] => .ok []
  | (name, version) :: rest => do
    let found ← moduleIn? name modules
    let later ← dependencySigns modules rest
    return match found with
      | some module => dependencyFinding name version module :: later
      | none => later

/-- The dependencies in a map of groups that name a module. -/
def groupedSigns (modules : List Value) (groups : List (String × Fields)) :
    Except Fault (List Finding) :=
  dependencySigns modules (installedDependencies groups)

/-- The dependencies that are looked at: those that an installation brings along. -/
def dependenciesOf (p : Package) : List (String × Value) :=
  (mergedDependencies [p.dependencies, p.devDependencies, p.optionalDependencies]).map
    fun d => (d.1, .text d.2)

/-- What is reported for all dependencies that name a module. -/
def groupFinding (signs : List Finding) : Finding :=
  { type := "network-dependencies",
    description := toString signs.length ++ " network-related dependencies", severity := .low,
    extras := [("source", .text "dependencies"), ("findings", .ofFindings signs),
      ("risk", .number (.float (Risk.half.times signs.length).toBinary))] }

/-- What was found in a package: scripts with their signs, and dependencies. -/
structure Signs where
  hooks : List (String × String × List Finding)
  dependencies : List Finding

def signs (rule : NetworkAccess) (p : Package) : Except Fault Signs := do
  let hooks ← rule.hookSigns p.lifecycleScripts
  return { hooks, dependencies := ← dependencySigns rule.modules (dependenciesOf p) }

namespace Signs

/-- One unit of risk for each sign in a script and half a unit for each dependency. -/
def risk (s : Signs) : Risk :=
  Risk.total (s.hooks.map fun h => Risk.one.times h.2.2.length) +
    Risk.half.times s.dependencies.length

def findings (s : Signs) : List Finding :=
  s.hooks.map (fun h => hookFinding h.1 h.2.1 h.2.2) ++
    (if s.dependencies.isEmpty then [] else [groupFinding s.dependencies])

end Signs

/-- The result for a package. -/
def evaluate (rule : NetworkAccess) (p : Package) : Except Failure RuleResult := do
  let found ← Failure.ofFault (rule.signs p)
  RuleResult.deducting rule.weight found.risk
    [("findings", .ofFindings found.findings), ("total_risk", found.risk.shown),
     ("has_network_calls", .bool !found.findings.isEmpty)]

end NetworkAccess

end PackageRisk
