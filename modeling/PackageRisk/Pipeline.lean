import PackageRisk.Archive.Retrieve
import PackageRisk.Batch
import PackageRisk.Packument
import PackageRisk.Scoring
import PackageRisk.StandardRules

/-!
# Scoring packages by name

A pipeline looks packages up in a registry and scores them with its rules: the standard ones
as settings configure them, unless it was given rules of its own. It either owns its line to
the network, which is then open between `enter` and `leave`, or uses that of its caller, which
is always open.
-/

namespace PackageRisk

/-- The line of a pipeline to the network. -/
inductive Line where
  | absent
  | opened
  | closed
  deriving DecidableEq, Repr, Inhabited

/-- A pipeline; its rules are known once it had a line. -/
structure Pipeline where
  settings : Settings
  given : Option Registry
  ownsLine : Bool
  line : Line
  registry : Option Registry

namespace Pipeline

/-- The rules of a pipeline: those that it was given, if there are any. -/
def chooseRegistry (settings : Settings) (given : Option Registry) : Except Failure Registry :=
  match given with
  | some r => if r.size = 0 then standard else .ok r
  | none => standard
where
  /-- The standard rules with archives inspected as settings say. -/
  standard : Except Failure Registry :=
    Registry.standard settings (Archive.analyze settings.archives)

/-- A pipeline with an open line and its rules. -/
def connect (p : Pipeline) : Except Failure Pipeline := do
  return { p with line := .opened, registry := some (← chooseRegistry p.settings p.given) }

/-- A pipeline that owns its line. -/
def owning (settings : Settings) (given : Option Registry) : Pipeline :=
  { settings, given, ownsLine := true, line := .absent, registry := none }

/-- A pipeline that uses the line of its caller. -/
def sharing (settings : Settings) (given : Option Registry) : Except Failure Pipeline :=
  connect { settings, given, ownsLine := false, line := .absent, registry := none }

/-- A pipeline inside its context. -/
def enter (p : Pipeline) : Except Failure Pipeline :=
  if p.line = .opened then .ok p else p.connect

/-- A pipeline that could not be entered because its rules could not be made: by then it has a line,
and is not connected again. -/
def stalled (p : Pipeline) : Pipeline :=
  { p with line := .opened }

/-- A pipeline outside of its context. Its rules stay known. -/
def leave (p : Pipeline) : Pipeline :=
  if p.ownsLine ∧ p.line = .opened then { p with line := .closed } else p

/-- The rules that a pipeline scores with. -/
def rules (p : Pipeline) : Except Failure Registry :=
  match p.registry with
  | some r => .ok r
  | none => .error .notOpen

/-- The registry that packages are looked up in. -/
def client (p : Pipeline) : RegistryClient :=
  .ofUrl p.settings.registry.url true

/-- What asking for a package ends with when the line is closed: its URL is read before that shows.
-/
def refusal (p : Pipeline) (package : String) : Failure :=
  match Url.Reference.parse (p.client.packageUrl package) with
  | .error why => .fault (.notUrl why)
  | .ok _ => .closed

/-- The score of a version of a package, by default of the latest one. -/
def score (p : Pipeline) (package : String) (version : Option Value) : Session Score := do
  let registry ← Session.lift p.rules
  if p.line = .closed then Session.fail (p.refusal package)
  else
    let found ← p.client.metadata package version
    Scoring.score p.settings.scoring registry.rules found

/-- The scores of packages, at most `concurrency` of them worked on at a time. A package that
cannot be scored has the failure in the place of its score. -/
def scoreMany (p : Pipeline) (concurrency : Int) (packages : List String) :
    Session (Batch (Except Failure Score)) :=
  if concurrency < 1 then Session.fail .noConcurrency
  else Batch.run concurrency.toNat packages fun package => p.score package none

end Pipeline

end PackageRisk
