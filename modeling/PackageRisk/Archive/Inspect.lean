import PackageRisk.Archive.Summary
import PackageRisk.Disk.Walk
import PackageRisk.Entropy
import PackageRisk.Text.Utf8

/-!
# Inspecting extracted packages

A package is summarised by its files, largest first, those of one size in the order of their
paths. An archive usually wraps a package in one directory, which is then its root. Files are
looked up by `resolveInside`, which refuses every path that leads outside of the root, through
links too.
-/

namespace PackageRisk.Archive

/-- The names of a path if it is relative, without a drive, and never leads up; backslashes
separate names too. -/
def insideNames? (path : String) : Option (List String) :=
  let p := Path.parse (Path.forwardSlashes path)
  if path.isEmpty || p.isAbsolute || Path.hasDrive path || p.parts.contains ".." then none
  else some p.parts

/-- The place of a path below a root. -/
def resolveInside (d : Disk) (root : List String) (path : String) : Except Failure Location :=
  match insideNames? path with
  | none => .error (.invalidPath path)
  | some names =>
    match d.resolve root with
    | .error e => .error (.fault e)
    | .ok base => match d.resolve (base ++ names) with
      | .error e => .error (.fault e)
      | .ok l => if l == base || !l.isWithin base then .error (.invalidPath path) else .ok l

/-- The octets of a file below a root. -/
def readInside (d : Disk) (root : List String) (path : String) : Except Failure ByteArray := do
  let l ← resolveInside d root path
  match d.read l with
  | .ok content => return content
  | .error e => .error (.unreadableFile path (e.report (Location.text l)))

/-- The text of a file below a root; line ends are line feeds. -/
def fileText (d : Disk) (root : List String) (path : String) : Except Failure String := do
  let content ← readInside d root path
  return String.ofList (Text.plainLineEnds (Text.ofUtf8Lossy content.toList).toList)

/-- The root of a package that was extracted to a place: the only entry there if that is a
directory. -/
def packageRoot (d : Disk) (l : Location) : Location :=
  match d.names l with
  | [name] => if d.isDirectory (l ++ [name]) then l ++ [name] else l
  | _ => l

/-- A file of a package: its path from the root and its content. -/
structure PackageFile where
  path : String
  content : ByteArray

namespace PackageFile

def size (f : PackageFile) : Nat :=
  f.content.size

/-- The order of files: larger ones first, and those of one size by their paths. -/
def precedes (f g : PackageFile) : Bool :=
  g.size < f.size || (f.size == g.size && decide (f.path ≤ g.path))

end PackageFile

/-- The files of a package, in order. -/
def filesOf (d : Disk) (root : Location) : List PackageFile :=
  ((d.filesBelow root).map fun f => ⟨Text.join "/" f.1, f.2⟩).mergeSort PackageFile.precedes

/-- The first items of a list; a number below zero leaves out as many at the end. -/
def firstOf {α : Type} (n : Int) (items : List α) : List α :=
  if n < 0 then items.take (items.length - n.natAbs) else items.take n.natAbs

/-- The suffixes of scripts. -/
def scriptSuffixes : List String := [".js", ".mjs", ".cjs"]

/-- Whether a path names a script. -/
def isScript (path : String) : Bool :=
  scriptSuffixes.contains (Text.lower (Path.parse path).suffix)

/-- How much of a file its entropy is taken of. -/
def sampleSize : Nat := 1048576

/-- The entropy of a file if it is a script. -/
def fileEntropy (d : Disk) (root : Location) (path : String) :
    Except Failure (Option Binary64) :=
  if !isScript path then .ok none
  else do
    let content ← readInside d root path
    return some (entropy (content.extract 0 sampleSize).toList)

/-- What is reported about files, with entropies or without. -/
def describe (d : Disk) (root : Location) (entropies : Bool) :
    List PackageFile → Except Failure (List ArchiveFile)
  | [] => .ok []
  | f :: rest => do
    let measured ← if entropies then fileEntropy d root f.path else .ok none
    return ⟨f.path, f.size, measured⟩ :: (← describe d root entropies rest)

/-- The name of the manifest of a package. -/
def manifestName : String := "package.json"

/-- Whether a package has a manifest. -/
def hasManifest (d : Disk) (root : Location) : Bool :=
  match d.entryAt? (root ++ [manifestName]) with
  | some (.file _) => true
  | _ => false

/-- The summary of a package that was extracted to a place from an archive of a given size. -/
def inspect (d : Disk) (l : Location) (maxFiles archiveSize : Int) (entropies : Bool) :
    Except Failure ArchiveSummary := do
  let root := packageRoot d l
  let files := filesOf d root
  let largestFiles ← describe d root entropies (firstOf maxFiles files)
  return { hasManifest := hasManifest d root, largestFiles, totalFiles := files.length,
           archiveSize }

end PackageRisk.Archive
