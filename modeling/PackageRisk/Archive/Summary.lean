import PackageRisk.Report.Check

/-!
# Summaries of archives

What an inspection of a package's archive reports: whether there is a manifest, how many files
there are, and the largest of them with the entropy of those that hold code.
-/

namespace PackageRisk

/-- A file of an archive. -/
structure ArchiveFile where
  path : String
  size : Int
  entropy : Option Binary64
  deriving DecidableEq, Repr, Inhabited

/-- What an archive holds; the largest files come first. -/
structure ArchiveSummary where
  hasManifest : Bool
  largestFiles : List ArchiveFile
  totalFiles : Int
  archiveSize : Int
  deriving DecidableEq, Repr, Inhabited

/-- A file as an object, its entropy as `shown` says. -/
def ArchiveFile.toValue (shown : Binary64 → Value) (f : ArchiveFile) : Value :=
  .object [("path", .text f.path), ("size", .int f.size),
    ("entropy", (f.entropy.map shown).getD .null)]

/-- A summary as an object, entropies as `shown` says. -/
def ArchiveSummary.toValue (shown : Binary64 → Value) (s : ArchiveSummary) : Value :=
  .object [("has_manifest", .bool s.hasManifest), ("total_files", .int s.totalFiles),
    ("tarball_size", .int s.archiveSize),
    ("largest_files", .list (s.largestFiles.map (ArchiveFile.toValue shown)))]

def ArchiveFile.check : Check ArchiveFile :=
  record "TarballFile" fun fields =>
    ArchiveFile.mk
      <$> required "path" .text fields
      <*> required "size" .whole fields
      <*> fieldOr ["entropy"] none (.optional .binary) fields

def ArchiveSummary.check : Check ArchiveSummary :=
  record "TarballAnalysis" fun fields =>
    ArchiveSummary.mk
      <$> fieldOr ["has_manifest"] false .truth fields
      <*> fieldOr ["largest_files"] [] (.list ArchiveFile.check) fields
      <*> fieldOr ["total_files"] 0 .whole fields
      <*> fieldOr ["tarball_size"] 0 .whole fields

end PackageRisk
