import PackageRisk.Failure
import PackageRisk.Package.Check
import PackageRisk.Package.Scripts

/-!
# Packages that nobody checked

The same questions as of a checked package, asked of a document as it came. A document of
another shape than expected is answered as far as it goes, and refused where a map is needed.
-/

namespace PackageRisk

/-- Equality of values as keys: numbers and truth values by amount. -/
def Value.sameKey (v w : Value) : Bool :=
  match v, w with
  | .null, .null => true
  | .text s, .text t => s == t
  | .bytes a, .bytes b => a.toList == b.toList
  | v, w => match v.number?, w.number? with
    | some m, some n => m.le n && n.le m
    | _, _ => false

/-- Whether a value can be a key. -/
def Value.canBeKey : Value → Bool
  | .list _ | .object _ => false
  | _ => true

/-- A key set to a value among pairs, in its old place if it had one. -/
def putPair (k v : Value) : List (Value × Value) → List (Value × Value)
  | [] => [(k, v)]
  | (k₀, v₀) :: rest =>
    if k₀.sameKey k then (k₀, v) :: rest else (k₀, v₀) :: putPair k v rest

namespace Document

/-- A fault for an operation that a value of this kind does not have. -/
def lacks (v : Value) (operation : String) : Fault :=
  .lacking ("'" ++ v.kindName ++ "' object has no attribute '" ++ operation ++ "'")

/-- The two parts of an item that stands for a pair. -/
def pair? (index : Nat) : Value → Except Fault (Value × Value)
  | .text s => match s.toList with
    | [a, b] => .ok (.text (String.singleton a), .text (String.singleton b))
    | cs => wrongLength cs.length
  | .list [a, b] => .ok (a, b)
  | .list items => wrongLength items.length
  | .object [(a, _), (b, _)] => .ok (.text a, .text b)
  | .object fields => wrongLength fields.length
  | .bytes b => wrongLength b.size
  | _ => .error <| .wrongKind <|
      "cannot convert dictionary update sequence element #" ++ toString index ++
        " to a sequence"
where
  /-- The fault of an item of the wrong length. -/
  wrongLength (n : Nat) : Except Fault (Value × Value) :=
    .error <| .wrongValue <| "dictionary update sequence element #" ++ toString index ++
      " has length " ++ toString n ++ "; 2 is required"

/-- The pairs that items stand for, the last of one key winning. -/
def pairsOf (index : Nat) (acc : List (Value × Value)) :
    List Value → Except Fault (List (Value × Value))
  | [] => .ok acc
  | v :: rest => do
    let (k, w) ← pair? index v
    if k.canBeKey then pairsOf (index + 1) (putPair k w acc) rest
    else .error (.wrongKind ("unhashable type: '" ++ k.kindName ++ "'"))

/-- A value as a map: the fields of an object, or a list of pairs. -/
def asPairs : Value → Except Fault (List (Value × Value))
  | .object fields => .ok (fields.map fun f => (.text f.1, f.2))
  | .list items => pairsOf 0 [] items
  | .text s => pairsOf 0 [] (s.toList.map fun c => .text (String.singleton c))
  | v => .error (.wrongKind ("'" ++ v.kindName ++ "' object is not iterable"))

/-- A field of an object if it is given, or nothing. -/
def givenField? (fields : Fields) (key : String) : Option Value :=
  match Fields.get? fields key with
  | some v => if v.isGiven then some v else none
  | none => none

/-- A given field as pairs. -/
def fieldPairs (fields : Fields) (key : String) : Except Fault (List (Value × Value)) :=
  match givenField? fields key with
  | some v => asPairs v
  | none => .ok []

/-- The scripts that hooks run, in hook order. -/
def lifecycleScripts : Value → Except Fault (List (String × String))
  | .object fields =>
    match givenField? fields "scripts" with
    | none => .ok []
    | some (.object scripts) => .ok (hookScripts scripts)
    | some v => .error (lacks v "get")
  | _ => .ok []

/-- All scripts, in document order. -/
def allScripts : Value → Except Fault (List (Value × Value))
  | .object fields => fieldPairs fields "scripts"
  | _ => .ok []

/-- The dependency groups with their names. -/
def dependencyMaps : Value → Except Fault (List (String × List (Value × Value)))
  | .object fields => dependencyGroups.mapM fun group => do
      return (group, ← fieldPairs fields group)
  | _ => .ok (dependencyGroups.map (·, []))

/-- Sizes as the document states them. -/
def sizeMetrics (package : Value) : Except Fault Fields :=
  match package with
  | .object fields =>
    match givenField? fields "dist" with
    | none => .ok (metrics [])
    | some (.object dist) => .ok (metrics dist)
    | some v => .error (lacks v "get")
  | v => if v.isGiven then .error (lacks v "get") else .ok (metrics [])
where
  /-- The three sizes, zero where one is not given. -/
  metrics (dist : Fields) : Fields :=
    [("unpackedSize", "unpacked_size"), ("fileCount", "file_count"), ("size", "tarball_size")].map
      fun (key, name) => (name, (givenField? dist key).getD (.number 0))

end Document

namespace Package

/-- A short account of a package. -/
def summary (p : Package) : Value :=
  let hooks := p.lifecycleScripts
  .object [("name", .text p.name), ("version", .text p.version),
    ("description", .text (p.description.getD "")), ("author", .ofTextOrObject? p.author),
    ("maintainers", .list (p.maintainers.map TextOrObject.toValue)),
    ("repository", .ofTextOrObject? p.repository), ("homepage", .ofText? p.homepage),
    ("license", .ofTextOrObject? p.license), ("scripts", .object p.scripts),
    ("lifecycle_scripts", .ofTexts hooks),
    ("install_scripts", .list ((installHooksAmong (hooks.map Prod.fst)).map .text)),
    ("dependencies", .object (p.dependencyMaps.map fun g => (g.1, .ofTexts g.2))),
    ("size_metrics", .object p.sizeMetrics), ("has_scripts", .bool !p.scripts.isEmpty),
    ("has_lifecycle_scripts", .bool !hooks.isEmpty)]

/-- A checked package, or all its faults. -/
def ofDocument (v : Value) : Except Failure Package :=
  match Package.check v with
  | .valid p => .ok p
  | .invalid issues => .error (.invalid "PackageMetadata" issues)

end Package

/-- A short account of a document, if it has a name. -/
def Document.summary (package : Value) : Except Failure (Option Value) :=
  match package with
  | .object fields =>
    match givenField? fields "name" with
    | some _ => do return some (← Package.ofDocument package).summary
    | none => .ok none
  | _ => .ok none

end PackageRisk
