import PackageRisk.Failure

/-!
# Score bands

A score falls into one of four bands, from `safe` down to `block`, each with the action that a
gate takes. The bounds of a band are whole numbers; a fractional score between two bands
belongs to the lower one, and a score outside the scale is blocked.
-/

namespace PackageRisk

/-- The bands of the scale. -/
inductive BandKey where
  | safe
  | review
  | highRisk
  | block
  deriving DecidableEq, Repr, Inhabited

/-- A band with its bounds and wording. -/
structure Band where
  key : BandKey
  min : Int
  max : Int
  label : String
  emoji : String
  description : String
  action : String
  deriving DecidableEq, Repr, Inhabited

def BandKey.name : BandKey → String
  | .safe => "SAFE"
  | .review => "REVIEW"
  | .highRisk => "HIGH_RISK"
  | .block => "BLOCK"

namespace Band

def safe : Band :=
  { key := .safe, min := 90, max := 100, label := "Safe", emoji := "✅",
    description := "Package appears safe to use", action := "safe" }

def review : Band :=
  { key := .review, min := 70, max := 89, label := "Review Recommended", emoji := "⚠️",
    description := "Review recommended before use", action := "review" }

def highRisk : Band :=
  { key := .highRisk, min := 50, max := 69, label := "High Risk", emoji := "❌",
    description := "High risk package, use with caution", action := "caution" }

def block : Band :=
  { key := .block, min := 0, max := 49, label := "Block", emoji := "🚨",
    description := "Block in CI/CD - significant security concerns", action := "block" }

/-- The bands, best first. -/
def all : List Band := [safe, review, highRisk, block]

/-- Whether a number lies in a band: up to just below the next band, but not above 100. -/
def contains (band : Band) (score : Number) : Bool :=
  Number.le (.int band.min) score && score.lt (.int (band.max + 1)) && score.le 100

/-- The band of a number. -/
def ofNumber (score : Number) : Band :=
  (all.find? (·.contains score)).getD block

/-- The band of a score; what is not a finite number has none, and neither has a whole number
beyond the range of binary64. -/
def ofScore (score : Value) : Except Failure Band :=
  match score with
  | .number n => match n.toBinary? with
    | none => .error (.fault (.overflow "int too large to convert to float"))
    | some x => if x.isFinite then .ok (ofNumber n) else .error (.invalidScore score)
  | _ => .error (.invalidScore score)

/-- Whether a gate refuses packages of a band. -/
def blocks (band : Band) : Bool :=
  band.action == "block"

/-- The sentence for a band. -/
def sentence (band : Band) : String :=
  band.emoji ++ " " ++ band.label ++ ": " ++ band.description

def toValue (band : Band) : Value :=
  .object [("key", .text band.key.name), ("min", .int band.min), ("max", .int band.max),
    ("label", .text band.label), ("emoji", .text band.emoji),
    ("description", .text band.description), ("action", .text band.action)]

end Band

/-- The exit status of a gate: zero when the score reaches the threshold. -/
def exitStatus (score threshold : Number) : Nat :=
  if threshold.le score then 0 else 1

end PackageRisk
