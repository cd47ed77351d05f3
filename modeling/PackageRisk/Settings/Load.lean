import PackageRisk.Ci
import PackageRisk.Disk.Walk
import PackageRisk.Settings.Check
import PackageRisk.Text.Utf8
import PackageRisk.Value.Json

/-!
# Loading settings

Settings come from a configuration file, over which variables of the environment are laid:
a variable wins over the file, and the file over what is standard. The file is a JSON object;
variables are texts, of which empty ones count as unset.
-/

namespace PackageRisk

namespace Value

mutual

/-- A value over another one: of two objects the fields of both. -/
def laidOver (old : Option Value) : Value → Value
  | .object fields => match old with
    | some (.object base) => .object (mergeDeep base fields)
    | _ => .object fields
  | v => v

/-- Fields over others, those that are objects on both sides in the same way. -/
def mergeDeep (base : Fields) : List (String × Value) → Fields
  | [] => base
  | (key, v) :: rest =>
    mergeDeep (Fields.put key (laidOver (Fields.get? base key) v) base) rest

end

end Value

namespace Settings

/-- The variable of a setting: where it is kept, and the end of its name. -/
structure Variable where
  name : String
  part : Option String
  key : String

/-- What the names of all variables start with. -/
def variableStem : String := "NPM_SECURITY_SCORE_"

/-- The variables that set something. -/
def allVariables : List Variable :=
  [⟨"BASE_SCORE", some "scoring", "base_score"⟩, ⟨"MIN_SCORE", some "scoring", "min_score"⟩,
   ⟨"MAX_SCORE", some "scoring", "max_score"⟩, ⟨"TIMEOUT", some "tarball", "timeout"⟩,
   ⟨"REGISTRY", some "registry", "url"⟩, ⟨"THRESHOLD", none, "threshold"⟩]

/-- The text that an environment has for a variable. -/
def Variable.text? (env : Environment) (v : Variable) : Option String :=
  match env.lookup (variableStem ++ v.name) with
  | none | some "" => none
  | some s => some s

/-- What a variable sets, as fields of a configuration. -/
def Variable.fields (env : Environment) (v : Variable) : Fields :=
  match v.text? env, v.part with
  | none, _ => []
  | some s, none => [(v.key, .text s)]
  | some s, some group => [(group, .object [(v.key, .text s)])]

/-- Fields with what an environment sets over them. -/
def withEnvironment (env : Environment) (fields : Fields) : Fields :=
  allVariables.foldl (fun acc v => Value.mergeDeep acc (v.fields env)) fields

/-- How deep a configuration may be nested. -/
def maxDepth : Nat := 980

/-- What the text of a configuration file says. -/
def readText (path text : String) : Except Failure Fields :=
  match Json.read maxDepth text with
  | .ok (.object fields) => .ok fields
  | .ok _ => .error (.config (.notObject path))
  | .error .malformed => .error (.config (.notJson path))
  | .error .tooDeep => .error (.fault .tooDeep)
  | .error .tooManyDigits => .error (.fault (.wrongValue "too many digits"))

/-- The format of a configuration file has to be JSON, by the suffix of its name. -/
def checkFormat (path : String) (suffix : String) : Except Failure Unit :=
  let lowered := Text.lower suffix
  if lowered == ".yaml" || lowered == ".yml" then .error (.config (.yaml path))
  else if lowered == ".json" then .ok ()
  else .error (.config (.format suffix))

/-- What the configuration file that names lead to says. -/
def readFile (d : Disk) (names : List String) : Except Failure Fields := do
  match d.resolve names with
  | .error e => throw (.fault e)
  | .ok l =>
    let path := Location.text l
    checkFormat path (Path.nameSuffix (l.getLast?.getD ""))
    match d.read l with
    | .error .absent => throw (.config (.absent path))
    | .error e => throw (.config (.unreadable path e))
    | .ok content => match Text.ofUtf8? content.toList with
      | none => throw (.fault .notText)
      | some text => readText path text

/-- Settings from a file, if one is named, and an environment. -/
def load (d : Disk) (file : Option (List String)) (env : Environment) :
    Except Failure Settings := do
  let fields ← match file with
    | none => pure []
    | some names => readFile d names
  match Settings.check (.object (withEnvironment env fields)) with
  | .valid settings => return settings
  | .invalid issues => throw (.config (.invalid issues))

end Settings

end PackageRisk
