import PackageRisk.CommandLine.Arguments
import PackageRisk.CommandLine.Display
import PackageRisk.Pipeline
import PackageRisk.Settings.Load
import PackageRisk.Value.Json

/-!
# Running a command

A command prints and ends with a status: zero and one are the verdict of the gate, two stands
for whatever kept a score from being computed and was foreseen. A failure that was not
foreseen is handed on.
-/

namespace PackageRisk.CommandLine

/-- The name and version that the program tells. -/
def versionText : String := "npm-security-score v0.1.0"

/-- The status of a command that could not do its work. -/
def unusable : Nat := 2

/-- What a command printed and how it ended. -/
structure Ending where
  printed : List Printed
  status : Except Failure Nat

/-- The status that the program ends with; a failure that is handed on ends it with one. -/
def exitCode : Except Failure Ending → Nat
  | .ok ⟨_, .ok status⟩ => status
  | .ok ⟨_, .error _⟩ | .error _ => 1

/-- Whether a failure is one of the registry, and how it is told. -/
def registryMessage? : Failure → Option String
  | e@(.packageNotFound ..) => some e.message
  | e@(.registry _) => some ("Error fetching package: " ++ e.message)
  | _ => none

/-- The score that is asked for. -/
def computeScore (settings : Settings) (request : ScoreRequest) : Session Score := do
  let p ← Session.lift (Pipeline.owning settings none).enter
  p.score request.package (request.version.map .text)

/-- Writes a score to a file. -/
def writeScore (s : Score) (path : String) : Session Unit := do
  let names ← Session.namesOf path
  Archive.changing path fun d => d.write names (Json.indented "" s.toValue).toUTF8

/-- Writes a score where that is asked for, and shows it. -/
def showScore (env : Environment) (request : ScoreRequest) (threshold : Number) (s : Score) :
    Session (List Printed) := do
  match request.output with
  | some path => writeScore s path
  | none => pure ()
  let saved := match request.output with
    | some path => if request.asJson then [] else
        [Printed.line (coloured "green" ("Saved to " ++ path))]
    | none => []
  return saved ++ (if request.asJson then [.document s.toValue]
    else scoreDisplay s threshold (buildService? env))

/-- Scores a package with settings that were loaded. -/
def scoreWith (env : Environment) (settings : Settings) (request : ScoreRequest) :
    Session Ending := do
  let threshold := request.threshold.getD settings.threshold
  let quiet := request.asJson || (buildService? env).isSome
  let progress : List Printed := if quiet then [] else [.line ""]
  match ← (computeScore settings request).attempt with
  | .error e => match registryMessage? e with
    | some text => return ⟨.line (coloured "red" text) :: progress, .ok unusable⟩
    | none => return ⟨progress, .error e⟩
  | .ok s => match ← (showScore env request threshold s).attempt with
    | .error e => return ⟨progress, .error e⟩
    | .ok shown => return ⟨progress ++ shown, .ok (exitStatus s.score threshold)⟩

/-- Scores a package and compares the score with the threshold. -/
def scoreCommand (env : Environment) (request : ScoreRequest) : Session Ending := do
  let file ← match request.config with
    | some path => do pure (some (← Session.namesOf path))
    | none => pure none
  match Settings.load (← Session.disk) file env with
  | .ok settings => scoreWith env settings request
  | .error (.config defect) =>
    return ⟨[.line (coloured "red" (Failure.config defect).message)], .ok unusable⟩
  | .error e => return ⟨[], .error e⟩

/-- Runs the command that arguments ask for. -/
def run (env : Environment) (args : List String) : Session Ending :=
  match command? args with
  | none => pure ⟨[], .ok unusable⟩
  | some .help => pure ⟨[], .ok 0⟩
  | some .bands => pure ⟨[bandTable], .ok 0⟩
  | some .version => pure ⟨[.line versionText], .ok 0⟩
  | some (.score request) => scoreCommand env request

end PackageRisk.CommandLine
