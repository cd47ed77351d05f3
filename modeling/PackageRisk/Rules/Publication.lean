import PackageRisk.Rules.Result

/-!
# Who published a version

A version that was published by an account outside the list of maintainers may come from a
stolen credential.
-/

namespace PackageRisk.Publication

/-- The name of the rule. -/
def ruleName : String := "verified-publisher"

/-- What the rule is about. -/
def about : String := "Checks that the publishing account is a listed maintainer"

def standardWeight : Number := 10

/-- What is known about the publisher of a version. -/
inductive Standing where
  | unknown
  | noMaintainers (publisher : String)
  | stranger (publisher : String)
  | maintainer (publisher : String)
  deriving DecidableEq, Repr

/-- The name of the publishing account, if it has one. -/
def publisherOf (p : Package) : Option String :=
  p.publisher.bind (·.name)

/-- The names of the maintainers that have one. -/
def maintainersOf (p : Package) : List Value :=
  maintainerNames (p.maintainers.map TextOrObject.toValue)

/-- Whether a name is among others. -/
def isAmong (name : String) (names : List Value) : Bool :=
  names.any fun v => v.text? == some name

/-- The standing of a publisher among maintainers. -/
def standing (publisher : Option String) (maintainers : List Value) : Standing :=
  match publisher with
  | none | some "" => .unknown
  | some name =>
    if maintainers.isEmpty then .noMaintainers name
    else if isAmong name maintainers then .maintainer name
    else .stranger name

namespace Standing

def risk : Standing → Risk
  | .unknown | .noMaintainers _ => .one
  | .stranger _ => Risk.one.times 3
  | .maintainer _ => .zero

def finding? : Standing → Option Finding
  | .unknown => some
      { type := "missing-publisher", description := "Publisher information is missing",
        severity := .low, extras := [] }
  | .noMaintainers publisher => some
      { type := "no-maintainers", description := "Package lists no maintainers",
        severity := .medium, extras := [("publisher", .text publisher)] }
  | .stranger publisher => some
      { type := "publisher-not-maintainer",
        description := "Publisher '" ++ publisher ++ "' not in maintainers list",
        severity := .high, extras := [("publisher", .text publisher)] }
  | .maintainer _ => none

def isMaintainer : Standing → Bool
  | .maintainer _ => true
  | _ => false

end Standing

/-- The result for a package. -/
def evaluate (weight : Value) (p : Package) : Except Failure RuleResult :=
  let found := standing (publisherOf p) (maintainersOf p)
  RuleResult.deducting weight found.risk
    [("findings", .ofFindings found.finding?.toList), ("total_risk", found.risk.shown),
     ("publisher", .ofText? (publisherOf p)), ("maintainers", .list (maintainersOf p)),
     ("publisher_is_listed_maintainer", .bool found.isMaintainer)]

end PackageRisk.Publication
