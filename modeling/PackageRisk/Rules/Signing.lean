import PackageRisk.Rules.Result

/-!
# Signed releases

Signatures of the registry together with a record of provenance earn the whole weight as a
bonus, signatures alone the half of it. A release with neither is one unit of risk.
-/

namespace PackageRisk.Signing

/-- The name of the rule. -/
def ruleName : String := "signed-releases"

/-- What the rule is about. -/
def about : String := "Checks for registry signatures and provenance attestations"

def standardWeight : Number := 5

/-- How a release is signed. -/
inductive Grade where
  | attested
  | signed
  | unsigned
  deriving DecidableEq, Repr

def hasSignatures (p : Package) : Bool :=
  !p.dist.signatures.isEmpty

def hasProvenance (p : Package) : Bool :=
  match p.dist.attestations with
  | some fields => !fields.isEmpty
  | none => false

def grade (p : Package) : Grade :=
  if hasSignatures p then (if hasProvenance p then .attested else .signed) else .unsigned

/-- What is reported for a release without signatures. -/
def unsignedFinding : Finding :=
  { type := "unsigned-release",
    description := "Release has no registry signatures or provenance", severity := .low,
    extras := [] }

/-- The result for a package. -/
def evaluate (weight : Value) (p : Package) : Except Failure RuleResult :=
  let details : Fields :=
    [("has_signatures", .bool (hasSignatures p)), ("has_provenance", .bool (hasProvenance p))]
  match grade p with
  | .attested => RuleResult.rewarding weight (details ++ [("findings", .list [])])
  | .signed => do
    let bonus ← Failure.ofFault (Share.half.floorOfValue weight)
    RuleResult.rewarding (.int bonus) (details ++ [("findings", .list [])])
  | .unsigned =>
    RuleResult.deducting weight .one (details ++
      [("findings", .ofFindings [unsignedFinding]), ("total_risk", Risk.one.shown)])

end PackageRisk.Signing
