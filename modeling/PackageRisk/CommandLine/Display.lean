import PackageRisk.Scoring

/-!
# What the command line prints

A score is shown in a panel with its band, followed by a table of the rules and the verdict
of the gate. Texts carry marks for colours in brackets.
-/

namespace PackageRisk.CommandLine

/-- How the cells of a column are aligned. -/
inductive Alignment where
  | left
  | right
  deriving DecidableEq, Repr

/-- A column of a table. -/
structure Column where
  header : String
  alignment : Alignment
  style : String
  maxWidth : Option Nat

/-- Something printed. -/
inductive Printed where
  | line (text : String)
  | panel (body title borderStyle : String) (expand : Bool)
  | table (title : String) (columns : List Column) (rows : List (List String))
  | document (v : Value)

/-- A text in a colour. -/
def coloured (colour text : String) : String :=
  "[" ++ colour ++ "]" ++ text ++ "[/" ++ colour ++ "]"

/-- The colour of a band. -/
def bandColour : BandKey → String
  | .safe => "green"
  | .review => "yellow"
  | .highRisk => "red"
  | .block => "bold red"

/-- The colour of a risk level. -/
def levelColour : RiskLevel → String
  | .none => "green"
  | .low => "yellow"
  | .medium => "dark_orange"
  | .high => "red"
  | .error => "magenta"

/-- A number without a fraction, a half going to the even neighbour. -/
def wholeText (n : Number) : String :=
  match n with
  | .int i => toString i
  | .float x => x.fixedText 0

/-- What a rule did to the score. -/
def impact (r : RuleResult) : String :=
  if !r.deduction.isZero then coloured "red" ("-" ++ r.deduction.brief)
  else if !r.bonus.isZero then coloured "green" ("+" ++ r.bonus.brief)
  else "0"

/-- How many findings are shown of a rule. -/
def shownFindings : Nat := 3

/-- The descriptions of findings. -/
def descriptions (findings : Value) : List String :=
  match findings with
  | .list items => items.map fun f => ((f.field? "description").getD .null).plain
  | _ => []

/-- The first findings of a rule, and how many more there are; or why it failed. -/
def summary (r : RuleResult) : String :=
  match Fields.get? r.details "error" with
  | some e => coloured "magenta" e.plain
  | none =>
    let all := descriptions ((Fields.get? r.details "findings").getD .null)
    let shown := Text.join "; " (all.take shownFindings)
    (if shown.isEmpty then "-" else shown) ++
      (if shownFindings < all.length then
        " (+" ++ toString (all.length - shownFindings) ++ " more)" else "")

/-- The row of a rule. -/
def ruleRow (r : Report) : List String :=
  [r.rule, r.weight.brief, coloured (levelColour r.result.level) r.result.level.name,
   impact r.result, summary r.result]

def ruleColumns : List Column :=
  [⟨"Rule", .left, "bold", none⟩, ⟨"Weight", .right, "dim", none⟩, ⟨"Risk", .left, "", none⟩,
   ⟨"Impact", .right, "", none⟩, ⟨"Findings", .left, "", some 60⟩]

/-- The panel with a score and its band. -/
def scorePanel (s : Score) : Printed :=
  let colour := bandColour s.band.key
  .panel ("[bold]" ++ coloured colour (wholeText s.score) ++ "[/bold] / 100  " ++ s.band.emoji ++
      " [bold]" ++ s.band.label ++ "[/bold]\n" ++ "[dim]" ++ s.band.description ++ "[/dim]")
    "Security Score" colour false

/-- The line with the build service, if there is one. -/
def serviceLine (service : Option String) : List Printed :=
  match service with
  | some name => [.line ("\n[dim]CI platform: " ++ name ++ "[/dim]")]
  | none => []

/-- The line with the verdict of the gate. -/
def verdictLine (score threshold : Number) : Printed :=
  if threshold.le score then
    .line ("\n" ++ coloured "green" ("Passed (threshold " ++ threshold.brief ++ ")"))
  else .line ("\n" ++ coloured "red" ("Failed: score below threshold " ++ threshold.brief))

/-- All that is shown of a score. -/
def scoreDisplay (s : Score) (threshold : Number) (service : Option String) : List Printed :=
  [.line "", .line ("[bold cyan]" ++ s.package ++ "[/bold cyan] v" ++ s.version), .line "",
   scorePanel s, .line "", .table "Rule Results" ruleColumns (s.reports.map ruleRow)] ++
    serviceLine service ++ [verdictLine s.score threshold]

def bandColumns : List Column :=
  [⟨"Band", .left, "bold", none⟩, ⟨"Range", .right, "", none⟩, ⟨"Action", .left, "", none⟩,
   ⟨"Description", .left, "", none⟩]

/-- The row of a band. -/
def bandRow (b : Band) : List String :=
  [b.emoji ++ " " ++ coloured (bandColour b.key) b.label,
   toString b.min ++ "-" ++ toString b.max, b.action, b.description]

/-- The table of all bands. -/
def bandTable : Printed :=
  .table "Score Bands" bandColumns (Band.all.map bandRow)

end PackageRisk.CommandLine
