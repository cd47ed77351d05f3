import PackageRisk.Number.Basic
import PackageRisk.Number.Numeral
import PackageRisk.Path

/-!
# Arguments of the command line

The first argument names a command. Options of `score` may stand before, between and behind
its one operand, until two dashes end them; short ones may be joined, and a value may follow
in the same argument. Asking for help wins over everything but an option that does not exist.
-/

namespace PackageRisk.CommandLine

/-- The options of `score`. -/
inductive OptionName where
  | version
  | config
  | threshold
  | json
  | output
  | verbose
  | help
  deriving DecidableEq, Repr

namespace OptionName

/-- Whether an option comes with a value. -/
def takesValue : OptionName → Bool
  | .version | .config | .threshold | .output => true
  | .json | .verbose | .help => false

/-- The options by what follows two dashes. -/
def long : List (String × OptionName) :=
  [("version", .version), ("config", .config), ("threshold", .threshold), ("json", .json),
   ("output", .output), ("verbose", .verbose), ("help", .help)]

/-- The options by what follows one dash. -/
def short : List (Char × OptionName) :=
  [('V', .version), ('c', .config), ('t', .threshold), ('o', .output), ('v', .verbose)]

end OptionName

/-- What is asked of `score`. -/
structure ScoreRequest where
  package : String
  version : Option String
  config : Option String
  threshold : Option Number
  asJson : Bool
  output : Option String
  deriving Repr

/-- What the command line asks for. -/
inductive Command where
  | bands
  | version
  | score (request : ScoreRequest)
  | help
  deriving Repr

/-- Options with their values, and operands, in the order of the arguments. -/
structure Split where
  options : List (OptionName × String)
  operands : List String

namespace Split

/-- Nothing split so far. -/
def empty : Split := ⟨[], []⟩

def addOption (s : Split) (option : OptionName) (value : String) : Split :=
  { s with options := s.options ++ [(option, value)] }

def addOperands (s : Split) (more : List String) : Split :=
  { s with operands := s.operands ++ more }

/-- The value of an option; the last one counts. -/
def value? (s : Split) (option : OptionName) : Option String :=
  s.options.reverse.lookup option

/-- Whether an option was given. -/
def has (s : Split) (option : OptionName) : Bool :=
  (s.value? option).isSome

end Split

/-- What one argument, behind two dashes, stands for: an option, and its value if it is in the
same argument. -/
def longOption? (cs : List Char) : Option (OptionName × Option String) :=
  let name := cs.takeWhile (· != '=')
  (OptionName.long.lookup (String.ofList name)).map fun option =>
    (option, match cs.drop name.length with
      | _ :: value => some (String.ofList value)
      | [] => none)

/-- The options that joined letters stand for; the last may still lack its value. -/
def shortOptions? : List Char → Option (List (OptionName × Option String))
  | [] => some []
  | c :: rest => do
    let option ← OptionName.short.lookup c
    if option.takesValue then
      return [(option, if rest.isEmpty then none else some (String.ofList rest))]
    else return (option, none) :: (← shortOptions? rest)

/-- What the options of one argument leave: the rest of the arguments, of which one may be a
value. -/
def takeOptions? (s : Split) :
    List (OptionName × Option String) → List String → Option (Split × List String)
  | [], args => some (s, args)
  | (option, value) :: more, args =>
    if !option.takesValue then
      if value.isSome then none else takeOptions? (s.addOption option "") more args
    else match value, args with
      | some v, _ => takeOptions? (s.addOption option v) more args
      | none, v :: args => takeOptions? (s.addOption option v) more args
      | none, [] => none

/-- The options that an argument stands for; nothing if it is an operand. -/
def optionsIn (arg : String) : Option (Option (List (OptionName × Option String))) :=
  match arg.toList with
  | '-' :: '-' :: cs => some ((longOption? cs).map ([·]))
  | ['-'] => none
  | '-' :: cs => some (shortOptions? cs)
  | _ => none

/-- Splits arguments, at most `n` of them; nothing if an option does not exist or lacks its
value. -/
def splitWithin : (n : Nat) → Split → List String → Option Split
  | 0, s, _ => some s
  | _, s, [] => some s
  | n + 1, s, arg :: args =>
    if arg == "--" then some (s.addOperands args)
    else match optionsIn arg with
      | none => splitWithin n (s.addOperands [arg]) args
      | some none => none
      | some (some options) => do
        let (s, args) ← takeOptions? s options args
        splitWithin n s args

/-- Splits arguments into options and operands. -/
def split? (args : List String) : Option Split :=
  splitWithin args.length .empty args

/-- The text of a path that an option gives. -/
def pathText (s : String) : String :=
  (Path.parse s).text

/-- What is asked of `score`, if it is given what it needs. -/
def scoreRequest? (s : Split) : Option ScoreRequest := do
  let [package] := s.operands | none
  let threshold ← match s.value? .threshold with
    | none => some none
    | some text => (Numeral.argumentBinary? text).map fun x => some (Number.float x)
  return { package, version := s.value? .version, config := (s.value? .config).map pathText,
           threshold, asJson := s.has .json, output := (s.value? .output).map pathText }

/-- What arguments ask of a command without options and operands. -/
def plainCommand? (command : Command) (args : List String) : Option Command :=
  let before := args.takeWhile (· != "--")
  let options := before.filter fun arg => (optionsIn arg).isSome
  if !options.all (· == "--help") then none
  else if !options.isEmpty then some .help
  else if args.all (· == "--") && args.length ≤ 1 then some command
  else none

/-- What the command line asks for; nothing if it is unusable. -/
def command? : List String → Option Command
  | "--help" :: _ => some .help
  | "bands" :: args => plainCommand? .bands args
  | "version" :: args => plainCommand? .version args
  | "score" :: args => do
    let s ← split? args
    if s.has .help then return .help
    else return .score (← scoreRequest? s)
  | _ => none

end PackageRisk.CommandLine
