import PackageRisk.Validation.Checked

/-!
# What can go wrong

A `Failure` is the cause of a failed request; its wording is `Failure.message`. Failures that
concern the retrieval or inspection of an archive are told apart by `aboutTarball`: a rule
that inspects archives turns them into findings instead of failing.
-/

namespace PackageRisk

/-- Why the operating system refuses a path. -/
inductive SystemFault where
  | absent
  | alreadyThere
  | notDirectory
  | isDirectory
  | nameTooLong
  | loop
  deriving DecidableEq, Repr

/-- The number and the sentence for a refused path. -/
def SystemFault.reason : SystemFault → String
  | .absent => "[Errno 2] No such file or directory"
  | .alreadyThere => "[Errno 17] File exists"
  | .notDirectory => "[Errno 20] Not a directory"
  | .isDirectory => "[Errno 21] Is a directory"
  | .nameTooLong => "[Errno 36] File name too long"
  | .loop => "[Errno 40] Too many levels of symbolic links"

/-- A refused path as messages show it. -/
def SystemFault.report (fault : SystemFault) (path : String) : String :=
  fault.reason ++ ": " ++ Text.quoted path

/-- Faults of values that nobody checked beforehand. -/
inductive Fault where
  | wrongKind (detail : String)
  | wrongValue (detail : String)
  | lacking (detail : String)
  | missingKey (key : Value)
  | overflow (detail : String)
  | outOfRange (detail : String)
  | tooDeep
  | notUrl (detail : String)
  | notText
  | system (fault : SystemFault) (path : String)
  | linkLoop (path : String)

/-- Why a rule is not accepted. -/
inductive RuleDefect where
  | nothing
  | noName
  | noEvaluation (name : String)
  | nameRequired
  deriving DecidableEq, Repr

/-- Why an archive was not downloaded. -/
inductive DownloadDefect where
  | scheme (name : String)
  | status (code : Nat)
  | tooLarge (limit : Int)
  | transport (detail : String)
  | stated (text : String) (status : Option Value)

/-- Why a registry gave no answer. -/
inductive RegistryDefect where
  | status (code : Nat) (package : String)
  | transport (package detail : String)
  | notJson (package : String)
  | notObject (package : String)
  | malformed (package version : String) (issues : List Issue)

/-- Why a configuration was not loaded. -/
inductive ConfigDefect where
  | yaml (path : String)
  | format (suffix : String)
  | absent (path : String)
  | unreadable (path : String) (fault : SystemFault)
  | notJson (path : String)
  | notObject (path : String)
  | invalid (issues : List Issue)

/-- The cause of a failure. -/
inductive Failure where
  | missingPackage
  | invalidPackage (issues : List Issue)
  | invalidScore (score : Value)
  | invalid (record : String) (issues : List Issue)
  | rejectedRule (defect : RuleDefect)
  | unimplementedRule (kind : String)
  | duplicateRule (name : String)
  | missingUrl
  | download (defect : DownloadDefect)
  | downloadTimeout (url : String) (seconds : Number)
  | extraction (detail : String)
  | invalidPath (path : String)
  | unreadableFile (path reason : String)
  | config (defect : ConfigDefect)
  | registry (defect : RegistryDefect)
  | packageNotFound (name : String) (version : Option Value)
  | noConcurrency
  | notOpen
  | closed
  | fault (cause : Fault)
  | foreign (kind : String) (arguments : List Value) (tarball : Bool)

/-- A step as it is written in a path of steps. -/
def Step.text : Step → String
  | .key name => name
  | .index i => toString i

/-- Where a fault is, and what it is. -/
def Issue.text (issue : Issue) : String :=
  Text.join "." (issue.path.map Step.text) ++ "\n  " ++ issue.defect.message

/-- How many faults of a record were found, and what they are. -/
def validationSummary (record : String) (issues : List Issue) : String :=
  Text.join "\n" ((toString issues.length ++ (if issues.length = 1 then " validation error for "
    else " validation errors for ") ++ record) :: issues.map Issue.text)

def Fault.message : Fault → String
  | .wrongKind detail | .wrongValue detail | .lacking detail | .overflow detail
  | .outOfRange detail | .notUrl detail => detail
  | .notText => "invalid octets"
  | .missingKey key => key.shown
  | .tooDeep => "maximum recursion depth exceeded"
  | .system fault path => fault.report path
  | .linkLoop path => "Symlink loop from " ++ Text.quoted path

def RuleDefect.message : RuleDefect → String
  | .nothing => "Rule must be an object"
  | .noName => "Rule must have a name property"
  | .noEvaluation name => "Rule \"" ++ name ++ "\" must have an evaluate function"
  | .nameRequired => "Rule name is required"

def DownloadDefect.message : DownloadDefect → String
  | .scheme name => "Unsupported URL scheme: " ++ (if name.isEmpty then "(none)" else name)
  | .status code => "Failed to download tarball: HTTP " ++ toString code
  | .tooLarge limit => "Tarball exceeds maximum size of " ++ toString limit ++ " bytes"
  | .transport detail => "Failed to download tarball: " ++ detail
  | .stated text _ => text

def RegistryDefect.message : RegistryDefect → String
  | .status code package => "Registry returned HTTP " ++ toString code ++ " for " ++ package
  | .transport package detail => "Failed to fetch " ++ package ++ " from registry: " ++ detail
  | .notJson package => "Registry returned invalid JSON for " ++ package
  | .notObject package => "Unexpected registry response for " ++ package
  | .malformed package version issues =>
    "Malformed metadata for " ++ package ++ "@" ++ version ++ ": " ++
      validationSummary "PackageMetadata" issues

def ConfigDefect.message : ConfigDefect → String
  | .yaml path => "YAML config files are not supported, use JSON: " ++ path
  | .format suffix =>
    "Unsupported config file format: " ++ (if suffix.isEmpty then "(none)" else suffix)
  | .absent path => "Config file not found: " ++ path
  | .unreadable path fault =>
    "Could not read config file " ++ path ++ ": " ++ fault.report path
  | .notJson path => "Invalid JSON in config file " ++ path ++ ": not a JSON text"
  | .notObject path => "Config file " ++ path ++ " must contain a JSON object"
  | .invalid issues => "Invalid configuration: " ++ validationSummary "Settings" issues

/-- The text of a failure that another program raised: its only argument, or all of them. -/
def foreignText (kind : String) : List Value → String
  | [] => ""
  | [v] => if kind = "KeyError" then v.shown else v.plain
  | [a, b] =>
    if kind = "OSError" ∨ kind = "FileNotFoundError" ∨ kind = "PermissionError" then
      "[Errno " ++ a.plain ++ "] " ++ b.plain
    else "(" ++ a.shown ++ ", " ++ b.shown ++ ")"
  | vs => "(" ++ Text.join ", " (vs.map Value.shown) ++ ")"

/-- A number with six significant digits at most. -/
def Number.brief (n : Number) : String :=
  match n.toBinary? with
  | some x => x.generalText
  | none => n.text

/-- The wording of a failure. -/
def Failure.message : Failure → String
  | .missingPackage => "Package data is required"
  | .invalidPackage issues =>
    "Invalid package data: " ++ validationSummary "PackageMetadata" issues
  | .invalidScore score => "Score must be a valid number, got " ++ score.shown
  | .invalid record issues => validationSummary record issues
  | .rejectedRule defect => defect.message
  | .unimplementedRule kind => kind ++ ".evaluate() must be implemented by subclass"
  | .duplicateRule name => "Rule with name \"" ++ name ++ "\" is already registered"
  | .missingUrl => "Tarball URL is required"
  | .download defect => defect.message
  | .downloadTimeout url seconds =>
    "Download timed out after " ++ seconds.brief ++ "s: " ++ url
  | .extraction detail => "Failed to extract tarball: " ++ detail
  | .invalidPath path => "Invalid file path: " ++ path
  | .unreadableFile path reason => "Failed to read " ++ path ++ ": " ++ reason
  | .config defect => defect.message
  | .registry defect => defect.message
  | .packageNotFound name version =>
    let target := match version with
      | some v => if v.isGiven then name ++ "@" ++ v.plain else name
      | none => name
    "Package '" ++ target ++ "' not found in npm registry"
  | .noConcurrency => "concurrency must be at least 1"
  | .notOpen => "ScoringPipeline must be used as an async context manager"
  | .closed => "Cannot send a request, as the client has been closed."
  | .fault cause => cause.message
  | .foreign kind arguments _ => foreignText kind arguments

/-- Failures to retrieve or inspect an archive. -/
def Failure.aboutTarball : Failure → Bool
  | .missingUrl | .download _ | .downloadTimeout .. | .extraction _ | .invalidPath _
  | .unreadableFile .. => true
  | .foreign _ _ tarball => tarball
  | _ => false

/-- The name of a failure for one whose wording is empty. -/
def Failure.kindName : Failure → String
  | .foreign kind _ _ => kind
  | .download _ => "DownloadError"
  | .extraction _ => "ExtractionError"
  | .fault (.wrongKind _) => "TypeError"
  | .fault (.wrongValue _) => "ValueError"
  | .fault (.lacking _) => "AttributeError"
  | .fault (.overflow _) => "OverflowError"
  | _ => "Error"

end PackageRisk
