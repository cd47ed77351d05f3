import PackageRisk.Archive.Extract
import PackageRisk.Archive.Inspect
import PackageRisk.Fetch
import PackageRisk.Settings.Basic

/-!
# Retrieving archives

The archive of a package is downloaded, extracted and inspected in a directory of its own,
which is named after the package and is removed afterwards, whatever happened. A download that
grows beyond its limit is given up.
-/

namespace PackageRisk.Archive

/-- Characters of the names of directories. -/
def isDirectoryChar (c : Char) : Bool :=
  c.isAlphanum || c == '@' || c == '.' || c == '_' || c == '-'

/-- The name of the directory for a package whose name leaves nothing. -/
def fallbackName : String := "package"

/-- The name of the directory for a package: a dash for each character that has no place in
it, and no dots in front. -/
def directoryName (package : String) : String :=
  let kept := (package.toList.map fun c => if isDirectoryChar c then c else '-').dropWhile
    (· == '.')
  if kept.isEmpty then fallbackName else String.ofList kept

/-- Where directories of packages are made if nothing else is configured. -/
def standardTempDir : String := "/tmp/npm-security-score"

/-- The path of the directory for a package. -/
def workPath (settings : ArchiveSettings) (package : String) : Path :=
  let base := Path.parse (settings.tempDir.getD standardTempDir)
  { base with parts := base.parts ++ [directoryName package] }

/-- The name of a downloaded archive. -/
def archiveName : String := "package.tgz"

/-- The name of the directory that an archive is extracted to. -/
def extractName : String := "extract"

/-- What is kept of a body that comes in chunks, and whether it is all of it: a chunk that
would bring it above the limit is refused. -/
def receive (limit : Int) (held : ByteArray) : List ByteArray → Bool × ByteArray
  | [] => (true, held)
  | chunk :: rest =>
    if limit < held.size + chunk.size then (false, held) else receive limit (held ++ chunk) rest

/-- A step that changes the disk; its fault is that of a path. -/
def changing (path : String) (step : Disk → Disk.Changed) : Session Unit := do
  let d ← Session.disk
  if path.toList.contains '\x00' then Session.fail (.fault (.wrongValue "embedded null byte"))
  else
    let (outcome, d) := step d
    Session.setDisk d
    match outcome with
    | .ok () => pure ()
    | .error e => Session.fail (.fault (.system e path))

/-- Removes the directory for a package if it is there. -/
def cleanUp (path : Path) : Session Unit := do
  let names ← Session.namesOf path.text
  let d ← Session.disk
  match d.enter names with
  | .ok _ => Session.setDisk (d.removeTree names)
  | .error .nameTooLong => Session.fail (.fault (.system .nameTooLong path.text))
  | .error _ => pure ()

/-- Why a URL cannot be split. -/
def splitFault (url : String) : Fault :=
  let host := (Url.splitHost (Url.splitScheme (Url.clean url.toList)).2).1
  .wrongValue (if host.contains '[' != host.contains ']' then "Invalid IPv6 URL"
    else "netloc '" ++ String.ofList host ++
      "' contains invalid characters under NFKC normalization")

/-- Downloads an archive to a file and tells its size. -/
def download (settings : ArchiveSettings) (url : String) (file : List String) : Session Nat :=
  match Url.parts? url with
  | none => Session.fail (.fault (splitFault url))
  | some parts =>
    if !Url.isWebScheme parts.scheme then Session.fail (.download (.scheme parts.scheme))
    else if settings.timeout.le 0 then Session.fail (.downloadTimeout url settings.timeout)
    else do
      match ← Session.fetch true url with
      | .response status _ chunks =>
        if !isSuccess status then Session.fail (.download (.status status))
        else
          let (complete, held) := receive settings.maxArchiveSize .empty chunks
          changing (Location.text file) fun d => d.write file held
          if complete then return held.size
          else Session.fail (.download (.tooLarge settings.maxArchiveSize))
      | .timeout _ | .silence => Session.fail (.downloadTimeout url settings.timeout)
      | .broken detail => Session.fail (.download (.transport detail))

/-- Extracts a downloaded archive to a directory and summarises it. -/
def unpack (settings : ArchiveSettings) (file target : List String) (size : Nat)
    (entropies : Bool) : Session ArchiveSummary := do
  changing (Location.text target) fun d => d.ensureDirectory target
  let d ← Session.disk
  let root ← Session.liftFault (d.resolve target)
  match d.read file with
  | .error e => Session.fail (.extraction e.reason)
  | .ok content =>
    let (outcome, d) := extractArchive d root content
    Session.setDisk d
    Session.lift outcome
    Session.lift (inspect d root settings.maxLargestFiles size entropies)

/-- Retrieves the archive of a package and summarises it, with entropies or without. -/
def analyze (settings : ArchiveSettings) (url package : String) (entropies : Bool) :
    Session ArchiveSummary :=
  if url.isEmpty then Session.fail .missingUrl
  else do
    let work := workPath settings package
    cleanUp work
    let names ← Session.namesOf work.text
    changing work.text fun d => d.ensureDirectory names
    let retrieved : Session ArchiveSummary := do
      let size ← download settings url (names ++ [archiveName])
      unpack settings (names ++ [archiveName]) (names ++ [extractName]) size entropies
    retrieved.thenAlways (cleanUp work)

end PackageRisk.Archive
