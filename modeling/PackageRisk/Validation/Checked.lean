import PackageRisk.Value.Basic

/-!
# Checks that report every fault

A document is checked field by field, and all faults are reported together, each with the way
to the value it concerns. `Checked` is the result of a check; its applicative structure joins
the faults of independent checks in the order in which the checks are written.
-/

namespace PackageRisk

/-- One step on the way to a value inside a document. -/
inductive Step where
  | key (name : String)
  | index (i : Nat)
  deriving DecidableEq, Repr

/-- A limit on a number. -/
inductive Bound where
  | atLeast (n : Int)
  | above (n : Int)
  deriving DecidableEq, Repr

/-- What is wrong with a value. -/
inductive Defect where
  | missing
  | notText
  | notObject
  | notList
  | notRecord (name : String)
  | notWhole
  | wholeSyntax
  | wholeSize
  | fraction
  | notFinite
  | notNumber
  | numberSyntax
  | notTruth
  | truthSyntax
  | outOfBounds (bound : Bound)
  | notAmong (choices : List String)
  | notPath
  | crossedBounds (low high : String)
  deriving DecidableEq, Repr

/-- A defect and the way to the value that has it. -/
structure Issue where
  path : List Step
  defect : Defect
  deriving DecidableEq, Repr

/-- The choices of an enumeration as a message lists them. -/
def choicesText (choices : List String) : String :=
  let quoted := choices.map fun c => "'" ++ c ++ "'"
  match quoted.reverse with
  | [] => ""
  | [c] => c
  | last :: rest => Text.join ", " rest.reverse ++ " or " ++ last

/-- The short name of a defect. -/
def Defect.code : Defect → String
  | .missing => "missing"
  | .notText => "string_type"
  | .notObject => "dict_type"
  | .notList => "list_type"
  | .notRecord _ => "model_type"
  | .notWhole => "int_type"
  | .wholeSyntax => "int_parsing"
  | .wholeSize => "int_parsing_size"
  | .fraction => "int_from_float"
  | .notFinite => "finite_number"
  | .notNumber => "float_type"
  | .numberSyntax => "float_parsing"
  | .notTruth => "bool_type"
  | .truthSyntax => "bool_parsing"
  | .outOfBounds (.atLeast _) => "greater_than_equal"
  | .outOfBounds (.above _) => "greater_than"
  | .notAmong _ => "enum"
  | .notPath => "path_type"
  | .crossedBounds .. => "value_error"

/-- The sentence that reports a defect. -/
def Defect.message : Defect → String
  | .missing => "Field required"
  | .notText => "Input should be a valid string"
  | .notObject => "Input should be a valid dictionary"
  | .notList => "Input should be a valid list"
  | .notRecord name => "Input should be a valid dictionary or instance of " ++ name
  | .notWhole => "Input should be a valid integer"
  | .wholeSyntax => "Input should be a valid integer, unable to parse string as an integer"
  | .wholeSize => "Unable to parse input string as an integer, exceeded maximum size"
  | .fraction => "Input should be a valid integer, got a number with a fractional part"
  | .notFinite => "Input should be a finite number"
  | .notNumber => "Input should be a valid number"
  | .numberSyntax => "Input should be a valid number, unable to parse string as a number"
  | .notTruth => "Input should be a valid boolean"
  | .truthSyntax => "Input should be a valid boolean, unable to interpret input"
  | .outOfBounds (.atLeast n) => "Input should be greater than or equal to " ++ toString n
  | .outOfBounds (.above n) => "Input should be greater than " ++ toString n
  | .notAmong choices => "Input should be " ++ choicesText choices
  | .notPath => "Input is not a valid path for <class 'pathlib.Path'>"
  | .crossedBounds low high =>
    "Value error, min_score (" ++ low ++ ") must not exceed max_score (" ++ high ++ ")"

/-- The result of a check. -/
inductive Checked (α : Type) where
  | valid (a : α)
  | invalid (issues : List Issue)

namespace Checked

variable {α β : Type}

def fail (d : Defect) : Checked α :=
  .invalid [⟨[], d⟩]

def map (f : α → β) : Checked α → Checked β
  | .valid a => .valid (f a)
  | .invalid es => .invalid es

/-- Two checks of which both report their faults. -/
def both (f : Checked (α → β)) (a : Checked α) : Checked β :=
  match f, a with
  | .valid f, .valid a => .valid (f a)
  | .invalid es, .valid _ => .invalid es
  | .valid _, .invalid es => .invalid es
  | .invalid es, .invalid fs => .invalid (es ++ fs)

/-- A check of a result, made only if there is one. -/
def andThen (a : Checked α) (f : α → Checked β) : Checked β :=
  match a with
  | .valid a => f a
  | .invalid es => .invalid es

instance : Applicative Checked where
  pure := .valid
  seq f a := both f (a ())
  map f a := map f a

/-- A check of a value one step inside another. -/
def inside (step : Step) : Checked α → Checked α
  | .valid a => .valid a
  | .invalid es => .invalid (es.map fun e => { e with path := step :: e.path })

end Checked

/-- A check of values. -/
abbrev Check (α : Type) := Value → Checked α

namespace Check

variable {α β : Type}

def text : Check String
  | .text s => .valid s
  | _ => .fail .notText

def object : Check Fields
  | .object fields => .valid fields
  | _ => .fail .notObject

/-- Every value is accepted. -/
def anything : Check Value := .valid

/-- Null, or a value that another check accepts. -/
def optional (check : Check α) : Check (Option α)
  | .null => .valid none
  | v => (check v).map some

/-- Each item of a list, from position `i` on. -/
def itemsFrom (check : Check α) (i : Nat) : List Value → Checked (List α)
  | [] => .valid []
  | v :: rest =>
    (List.cons <$> (check v).inside (.index i)) <*> itemsFrom check (i + 1) rest

def list (check : Check α) : Check (List α)
  | .list items => itemsFrom check 0 items
  | _ => .fail .notList

/-- Each field of an object. -/
def fieldsOf (check : Check α) : Fields → Checked (List (String × α))
  | [] => .valid []
  | (k, v) :: rest =>
    ((fun a r => (k, a) :: r) <$> (check v).inside (.key k)) <*> fieldsOf check rest

def dictionary (check : Check α) : Check (List (String × α))
  | .object fields => fieldsOf check fields
  | _ => .fail .notObject

end Check

/-- The first of several spellings under which an object has a field. -/
def findField (spellings : List String) (fields : Fields) : Option (String × Value) :=
  spellings.findSome? fun k => (Fields.get? fields k).map (k, ·)

/-- A field that may be absent and then has a given value. -/
def fieldOr {α : Type} (spellings : List String) (default : α) (check : Check α)
    (fields : Fields) : Checked α :=
  match findField spellings fields with
  | some (k, v) => (check v).inside (.key k)
  | none => .valid default

/-- A field that has to be there. -/
def required {α : Type} (name : String) (check : Check α) (fields : Fields) : Checked α :=
  match Fields.get? fields name with
  | some v => (check v).inside (.key name)
  | none => (Checked.fail .missing).inside (.key name)

/-- A record of the given name, checked field by field. -/
def record {α : Type} (name : String) (check : Fields → Checked α) : Check α
  | .object fields => check fields
  | _ => .fail (.notRecord name)

end PackageRisk
