import PackageRisk.Value.Basic

/-!
# Packages

What the registry says about one version of a package, after it has been checked. Maps keep
the order in which the registry lists them.
-/

namespace PackageRisk

/-- A field that is a text or an object. -/
inductive TextOrObject where
  | text (s : String)
  | object (fields : Fields)
  deriving Inhabited

def TextOrObject.toValue : TextOrObject → Value
  | .text s => .text s
  | .object fields => .object fields

/-- The account that published a version. -/
structure Publisher where
  name : Option String
  email : Option String
  deriving Inhabited

/-- Where a version's archive is, how large it is and who signed it. -/
structure Distribution where
  tarball : Option String
  unpackedSize : Nat
  fileCount : Nat
  size : Nat
  shasum : Option String
  integrity : Option String
  signatures : List Fields
  attestations : Option Fields
  deriving Inhabited

/-- One version of a package. -/
structure Package where
  name : String
  version : String
  description : Option String
  scripts : Fields
  dependencies : List (String × String)
  devDependencies : List (String × String)
  peerDependencies : List (String × String)
  optionalDependencies : List (String × String)
  dist : Distribution
  files : List String
  repository : Option TextOrObject
  author : Option TextOrObject
  license : Option TextOrObject
  homepage : Option String
  maintainers : List TextOrObject
  publisher : Option Publisher
  sbom : Option TextOrObject
  deriving Inhabited

/-- A text or null. -/
def Value.ofText? : Option String → Value
  | some s => .text s
  | none => .null

/-- A text, an object or null. -/
def Value.ofTextOrObject? : Option TextOrObject → Value
  | some v => v.toValue
  | none => .null

/-- A map of texts as an object. -/
def Value.ofTexts (fields : List (String × String)) : Value :=
  .object (fields.map fun f => (f.1, .text f.2))

/-- A natural number as a value. -/
def Value.nat (n : Nat) : Value := .int n

def Publisher.toValue (p : Publisher) : Value :=
  .object [("name", .ofText? p.name), ("email", .ofText? p.email)]

/-- A distribution keyed by its field names. -/
def Distribution.toValue (d : Distribution) : Value :=
  .object [("tarball", .ofText? d.tarball), ("unpacked_size", .nat d.unpackedSize),
    ("file_count", .nat d.fileCount), ("size", .nat d.size), ("shasum", .ofText? d.shasum),
    ("integrity", .ofText? d.integrity), ("signatures", .list (d.signatures.map .object)),
    ("attestations", (d.attestations.map .object).getD .null)]

/-- A package keyed by its field names. -/
def Package.toValue (p : Package) : Value :=
  .object [("name", .text p.name), ("version", .text p.version),
    ("description", .ofText? p.description), ("scripts", .object p.scripts),
    ("dependencies", .ofTexts p.dependencies),
    ("dev_dependencies", .ofTexts p.devDependencies),
    ("peer_dependencies", .ofTexts p.peerDependencies),
    ("optional_dependencies", .ofTexts p.optionalDependencies),
    ("dist", p.dist.toValue), ("files", .list (p.files.map .text)),
    ("repository", .ofTextOrObject? p.repository), ("author", .ofTextOrObject? p.author),
    ("license", .ofTextOrObject? p.license), ("homepage", .ofText? p.homepage),
    ("maintainers", .list (p.maintainers.map TextOrObject.toValue)),
    ("npm_user", (p.publisher.map Publisher.toValue).getD .null),
    ("sbom", .ofTextOrObject? p.sbom)]

end PackageRisk
