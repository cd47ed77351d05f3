import PackageRisk.Pattern.Search
import PackageRisk.Rules.Result

/-!
# Scripts that run by themselves

A hook that runs wherever the package is installed is a risk as such; patterns of shell
commands in any script that a hook runs add to it by their severity.
-/

namespace PackageRisk

/-- A pattern of shell commands and what it is reported as. -/
structure CommandPattern where
  pattern : Pattern
  type : String
  severity : Severity
  description : String

namespace CommandPattern

open Pattern

/-- A word of a set. -/
def word (cs : List (Char × Char)) : Pattern := .one (.ranges cs)

/-- The patterns, in the order in which they are reported. -/
def all : List CommandPattern :=
  [⟨.all [.boundary, .alt (lit "curl") (lit "wget"), gap],
    "script-network-fetch", .high, "Network download in script"⟩,
   ⟨.all [.one (.only '|'), blanks, .anyOf [lit "bash", lit "sh", lit "zsh"], .boundary],
    "script-pipe-shell", .critical, "Piping output to shell (RCE risk)"⟩,
   ⟨.all [lit "base64", gap, .alt (lit "-d") (lit "--decode")],
    "script-base64-decode", .high, "Base64 decoding in script"⟩,
   ⟨.all [lit "http", .opt (.one (.only 's')), lit "://", .many .notBlank 1 true],
    "script-url", .medium, "URL in script"⟩,
   ⟨.all [.boundary, lit "node", gap,
      .anyOf [lit "-e", lit "--eval", lit "-p", lit "--print"], .boundary],
    "script-inline-eval", .high, "Inline code evaluation with node -e"⟩,
   ⟨.all [.boundary, lit "node", gap, word [('a', 'z'), ('A', 'Z'), ('_', '_')],
      .many (.ranges [('a', 'z'), ('A', 'Z'), ('0', '9'), ('_', '_')]) 0 true, lit ".js",
      .boundary],
    "script-node-exec", .medium, "Node.js file execution in script"⟩,
   ⟨.alt (.seq (.one (.only '$')) (.many (.ranges [('A', 'Z'), ('_', '_')]) 1 true))
      (.seq (lit "process.env") .boundary),
    "script-env-var", .low, "Environment variable in script"⟩,
   ⟨.all [.boundary, lit "bun.sh", .boundary],
    "bun-install", .critical, "Bun runtime installation"⟩,
   ⟨.all [lit "npm", gap, .alt (lit "i") (lit "install"), .many .notNewline 0 false, gap,
      lit "bun", .boundary],
    "bun-npm", .critical, "Installing Bun via npm"⟩,
   ⟨.all [lit "deno.", .alt (lit "land") (lit "com")],
    "deno-install", .high, "Deno runtime reference"⟩]

/-- How much of a match is reported. -/
def matchLimit : Nat := 100

/-- What is reported if a pattern matches somewhere in a script. -/
def finding? (p : CommandPattern) (script : String) : Option Finding :=
  (p.pattern.search? false script).map fun found =>
    { type := p.type, description := p.description, severity := p.severity,
      extras := [("match", .text (String.ofList (found.toList.take matchLimit)))] }

end CommandPattern

/-- The risk of an observation in a script. -/
def Severity.commandRisk : Severity → Risk
  | .critical => Risk.one.times 2
  | .high => .one
  | .medium => .half
  | .low => .quarter

/-- What was found in the script of a hook. -/
structure HookScript where
  hook : String
  script : String
  findings : List Finding

namespace HookScript

/-- The findings of a script, each pattern counted once. -/
def scan (script : String) : List Finding :=
  CommandPattern.all.filterMap (·.finding? script)

def ofScript (hook script : String) : HookScript :=
  { hook, script, findings := scan script }

def runsOnInstall (h : HookScript) : Bool :=
  isInstallHook h.hook

/-- The risk of the findings, and a unit for a hook that runs on installation. -/
def risk (h : HookScript) : Risk :=
  Risk.total (h.findings.map fun f => f.severity.commandRisk) +
    (if h.runsOnInstall then .one else .zero)

/-- Whether all findings count whole units. -/
def countsWhole (h : HookScript) : Bool :=
  h.findings.all fun f => f.severity == .critical || f.severity == .high

/-- The risk as reports show it: a whole number unless a fraction took part in it. -/
def shownRisk (h : HookScript) : Value :=
  if h.countsWhole then .nat (h.risk.quarters / 4) else .number (.float h.risk.toBinary)

/-- Whether the script is worth a report. -/
def isReported (h : HookScript) : Bool :=
  h.runsOnInstall || !h.findings.isEmpty

/-- The gravest severity of the findings, and at least that of the hook itself. -/
def severity (h : HookScript) : Severity :=
  (h.findings.map (·.severity)).foldl Severity.graver (if h.runsOnInstall then .medium else .low)

/-- What is reported for the script of a hook. -/
def finding (h : HookScript) : Finding :=
  { type := if h.runsOnInstall then "install-hook" else "lifecycle-script",
    description := h.hook ++ " script runs " ++
      (if h.runsOnInstall then "on install" else "during publish") ++ ": " ++
      toString h.findings.length ++ " suspicious pattern(s)",
    severity := h.severity,
    extras := [("hook", .text h.hook), ("script", .text (normalizedScript h.script)),
      ("findings", .ofFindings h.findings), ("risk", h.shownRisk)] }

end HookScript

namespace InstallScripts

/-- The name of the rule. -/
def ruleName : String := "lifecycle-script-risk"

/-- What the rule is about. -/
def about : String :=
  "Flags install-time lifecycle scripts and dangerous shell patterns in them"

def standardWeight : Number := 30

/-- The scripts of a package that are reported, in hook order. -/
def reported (p : Package) : List HookScript :=
  (p.lifecycleScripts.map fun s => HookScript.ofScript s.1 s.2).filter (·.isReported)

/-- The risk of all scripts of a package. -/
def risk (p : Package) : Risk :=
  Risk.total ((reported p).map (·.risk))

/-- The result for a package. -/
def evaluate (weight : Value) (p : Package) : Except Failure RuleResult :=
  let hooks := installHooksAmong (p.lifecycleScripts.map Prod.fst)
  RuleResult.deducting weight (risk p)
    [("findings", .ofFindings ((reported p).map (·.finding))), ("total_risk", (risk p).shown),
     ("install_hooks", .list (hooks.map .text)), ("has_install_scripts", .bool !hooks.isEmpty)]

end InstallScripts

end PackageRisk
