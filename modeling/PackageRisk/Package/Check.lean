import PackageRisk.Package.Basic
import PackageRisk.Report.Check

/-!
# Checks of packages

The registry's spelling of a field and the field's own name are both accepted; where a
document has both, the registry's wins. Null stands for an empty map or list, and for a size
of zero.
-/

namespace PackageRisk

/-- A text or an object; what is neither has two faults. -/
def TextOrObject.check : Check TextOrObject
  | .text s => .valid (.text s)
  | .object fields => .valid (.object fields)
  | _ => .invalid [⟨[.key "dict[str,any]"], .notObject⟩, ⟨[.key "str"], .notText⟩]

def Publisher.check : Check Publisher :=
  record "NpmUser" fun fields =>
    Publisher.mk
      <$> fieldOr ["name"] none (.optional .text) fields
      <*> fieldOr ["email"] none (.optional .text) fields

/-- A size: a whole number that is not negative, null counting as zero. -/
def Check.size : Check Nat := fun v =>
  Int.toNat <$> Check.orZero (.bounded (.atLeast 0) .int .whole) v

/-- A text; all that is not given counts as absent. -/
def Check.givenText : Check (Option String) := fun v =>
  if v.isGiven then some <$> Check.text v else .valid none

def Distribution.check : Check Distribution :=
  record "DistInfo" fun fields =>
    Distribution.mk
      <$> fieldOr ["tarball"] none .givenText fields
      <*> fieldOr ["unpackedSize", "unpacked_size"] 0 .size fields
      <*> fieldOr ["fileCount", "file_count"] 0 .size fields
      <*> fieldOr ["size"] 0 .size fields
      <*> fieldOr ["shasum"] none (.optional .text) fields
      <*> fieldOr ["integrity"] none (.optional .text) fields
      <*> fieldOr ["signatures"] [] (.list .object) fields
      <*> fieldOr ["attestations"] none (.optional .object) fields

/-- A distribution of which nothing is known. -/
def Distribution.unknown : Distribution :=
  { tarball := none, unpackedSize := 0, fileCount := 0, size := 0, shasum := none,
    integrity := none, signatures := [], attestations := none }

/-- A map from names to versions. -/
def Check.versions : Check (List (String × String)) :=
  .orEmptyObject (.dictionary .text)

def Package.check : Check Package :=
  record "PackageMetadata" fun fields =>
    Package.mk
      <$> required "name" .text fields
      <*> fieldOr ["version"] "" .text fields
      <*> fieldOr ["description"] none (.optional .text) fields
      <*> fieldOr ["scripts"] [] (.orEmptyObject .object) fields
      <*> fieldOr ["dependencies"] [] .versions fields
      <*> fieldOr ["devDependencies", "dev_dependencies"] [] .versions fields
      <*> fieldOr ["peerDependencies", "peer_dependencies"] [] .versions fields
      <*> fieldOr ["optionalDependencies", "optional_dependencies"] [] .versions fields
      <*> fieldOr ["dist"] .unknown (.orEmptyObject Distribution.check) fields
      <*> fieldOr ["files"] [] (.orEmptyList (.list .text)) fields
      <*> fieldOr ["repository"] none (.optional TextOrObject.check) fields
      <*> fieldOr ["author"] none (.optional TextOrObject.check) fields
      <*> fieldOr ["license"] none (.optional TextOrObject.check) fields
      <*> fieldOr ["homepage"] none (.optional .text) fields
      <*> fieldOr ["maintainers"] [] (.orEmptyList (.list TextOrObject.check)) fields
      <*> fieldOr ["_npmUser", "npm_user"] none (.optional Publisher.check) fields
      <*> fieldOr ["sbom"] none (.optional TextOrObject.check) fields

end PackageRisk
