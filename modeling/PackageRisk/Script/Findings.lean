import PackageRisk.Pattern.Search
import PackageRisk.Report.Basic
import PackageRisk.Script.Escape
import PackageRisk.Script.Parser
import PackageRisk.Url

/-!
# Network access in scripts

Which calls, constructions and imports of a script reach for the network. `findings` follows
the structure of a tree, a part before what is in it; `search` keeps the parts that are still to
be looked at on a stack, so its depth does not grow with the script.
-/

namespace PackageRisk.Script

/-- The modules that open connections. -/
def networkModules : List String :=
  ["http", "https", "http2", "request", "axios", "node-fetch", "got", "superagent", "needle",
   "phin"]

/-- What in a text that is run as a script shows network access. -/
def runnablePatterns : List Pattern :=
  [.all [.lit "http", .opt (.one (.only 's')), .lit "://"],
   .all [.boundary, .lit "fetch", .blanks, .one (.only '(')],
   .all [.boundary, .lit "XMLHttpRequest"],
   .all [.boundary, .lit "require", .blanks, .one (.only '('), .blanks, .quote, .lit "http",
     .opt (.one (.only 's')), .quote]]

/-- Whether a text shows network access when it is run. -/
def showsNetwork (s : String) : Bool :=
  runnablePatterns.any fun p => p.occursIn false s

/-- A finding about a web address. -/
def addressFinding (type label url : String) : Finding :=
  { type, description := label ++ url, severity := .high, extras := [("url", .text url)] }

/-- A string literal as a list of code points; other parts are none. -/
def literal? : Tree → Except Fault (Option (List Nat))
  | .text pieces => (decodePieces pieces).map some
  | _ => .ok none

/-- The first argument of a call as a string literal. -/
def firstLiteral? (arguments : List Tree) : Except Fault (Option (List Nat)) :=
  match arguments with
  | t :: _ => literal? t
  | [] => .ok none

/-- The text of a literal. -/
def literalText (points : List Nat) : String :=
  String.ofList (textOf points)

/-- The text of a literal that is run as a script; halves of characters stay apart in it. -/
def runText (points : List Nat) : String :=
  String.ofList (points.map textOf.half)

/-- The module among some that a literal names. A null among them stands for the lack of a
literal. -/
def namedModule? (modules : List Value) (literal : Option (List Nat)) : Option Value :=
  modules.find? fun m => match m, literal with
    | .text s, some points => codePoints s.toList == points
    | .null, none => true
    | _, _ => false

/-- What a call by name says. -/
def callFinding? (modules : List Value) (name : String) (literal : Option (List Nat)) :
    Option Finding :=
  match name with
  | "require" => (namedModule? modules literal).map fun m =>
      { type := "require-network-module", description := "Requires network module: " ++ m.plain,
        severity := .high, extras := [("module", m)] }
  | "fetch" => literal.bind fun points =>
      if Url.isWeb (literalText points) then
        some (addressFinding "fetch-call" "fetch() call with URL: " (literalText points))
      else none
  | "eval" => literal.bind fun points =>
      if showsNetwork (runText points) then
        some { type := "eval-network",
               description := "eval() with potential network-related code",
               severity := .high, extras := [] }
      else none
  | _ => none

/-- What a web address in a literal says. -/
def webFinding? (type label : String) (literal : Option (List Nat)) : Option Finding :=
  literal.bind fun points =>
    if Url.isWeb (literalText points) then
      some (addressFinding type label (literalText points))
    else none

/-- What a part says by itself. -/
def own (modules : List Value) : Tree → Except Fault (Option Finding)
  | .call callee arguments => do
    let literal ← firstLiteral? arguments
    return match callee with
      | .name w => callFinding? modules w literal
      | _ => none
  | .importCall arguments => do
    return webFinding? "dynamic-import-url" "Dynamic import from URL: "
      (← firstLiteral? arguments)
  | .construct (.name "XMLHttpRequest") _ =>
    .ok (some { type := "xhr-usage", description := "XMLHttpRequest usage detected",
                severity := .medium, extras := [] })
  | .importFrom source _ => do
    return webFinding? "import-url" "Import from URL: " (some (← decodePieces source))
  | _ => .ok none

mutual

/-- The findings of a part, its own before those of its parts. -/
def findings (modules : List Value) : Tree → Except Fault (List Finding)
  | .name w => do return (← own modules (.name w)).toList
  | .text pieces => do return (← own modules (.text pieces)).toList
  | .call callee arguments => do
    let here ← own modules (.call callee arguments)
    let first ← findings modules callee
    return here.toList ++ first ++ (← findingsOfAll modules arguments)
  | .importCall arguments => do
    let here ← own modules (.importCall arguments)
    return here.toList ++ (← findingsOfAll modules arguments)
  | .construct maker arguments => do
    let here ← own modules (.construct maker arguments)
    let first ← findings modules maker
    return here.toList ++ first ++ (← findingsOfAll modules arguments)
  | .importFrom source parts => do
    let here ← own modules (.importFrom source parts)
    return here.toList ++ (← findingsOfAll modules parts)
  | .group parts => do
    let here ← own modules (.group parts)
    return here.toList ++ (← findingsOfAll modules parts)

/-- The findings of parts, one after the other. -/
def findingsOfAll (modules : List Value) : List Tree → Except Fault (List Finding)
  | [] => .ok []
  | t :: rest => do
    let here ← findings modules t
    return here ++ (← findingsOfAll modules rest)

end

mutual

/-- The number of parts of a tree, itself included. -/
def Tree.size : Tree → Nat
  | .name _ | .text _ => 1
  | .call callee arguments => 1 + callee.size + sizes arguments
  | .importCall arguments => 1 + sizes arguments
  | .construct maker arguments => 1 + maker.size + sizes arguments
  | .importFrom _ parts => 1 + sizes parts
  | .group parts => 1 + sizes parts

/-- The number of parts of several trees. -/
def sizes : List Tree → Nat
  | [] => 0
  | t :: rest => t.size + sizes rest

end

theorem sizes_append (a b : List Tree) : sizes (a ++ b) = sizes a + sizes b := by
  induction a with
  | nil => simp [sizes]
  | cons t rest ih => simp [sizes, ih, Nat.add_assoc]

theorem sizes_parts (t : Tree) : sizes t.parts < t.size := by
  cases t <;> simp only [Tree.parts, Tree.size, sizes] <;> omega

/-- The findings of the parts on a stack, the uppermost first; `found` holds earlier ones, last
first. -/
def search (modules : List Value) (found : List Finding) : List Tree → Except Fault (List Finding)
  | [] => .ok found.reverse
  | t :: stack =>
    match own modules t with
    | .error e => .error e
    | .ok here => search modules (here.toList ++ found) (t.parts ++ stack)
  termination_by stack => sizes stack
  decreasing_by
    have := sizes_parts t
    simp only [sizes_append, sizes]
    omega

/-- The findings of a script; a text that is no script has none. -/
def analyze (modules : List Value) (source : String) : Except Fault (List Finding) :=
  if Text.allBlank source.toList then .ok []
  else match parse? source with
    | some t => search modules [] [t]
    | none => .ok []

end PackageRisk.Script
