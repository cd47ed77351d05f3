import PackageRisk.Archive.Gzip
import PackageRisk.Archive.Tar
import PackageRisk.Disk.Write

/-!
# Extracting archives

The members of an archive are not trusted: all their names are checked before the first one is
written. A name is refused if it is empty or absolute, if it has a drive, or if it leads
outside of the directory that the archive is extracted to. Of the members only files and
directories are written.
-/

namespace PackageRisk.Archive

/-- The members of an archive, which may be compressed. -/
def members (content : ByteArray) : Except Tar.Defect (List Tar.Member) :=
  match Gzip.expand? content with
  | some expanded => Tar.members expanded.bytes expanded.sound
  | none => Tar.members content true

/-- Whether a name can be looked up below a directory. -/
def isRelative (name : String) : Bool :=
  !name.isEmpty && !(Path.parse name).isAbsolute && !Path.hasDrive name

/-- Refuses a name that leads outside of a directory. -/
def checkName (d : Disk) (root : Location) (name : String) : Except Failure Unit :=
  if !isRelative name then .error (.invalidPath name)
  else match d.resolve (root ++ Path.components name) with
    | .ok l => if l.isWithin root then .ok () else .error (.invalidPath name)
    | .error e => .error (.fault e)

/-- Refuses the first name that leads outside of a directory. -/
def checkNames (d : Disk) (root : Location) : List Tar.Member → Except Failure Unit
  | [] => .ok ()
  | m :: rest => do
    checkName d root m.name
    checkNames d root rest

/-- The names that lead to a member: the pieces of its name, single dots included. -/
def namesOf (root : Location) (name : String) : List String :=
  root ++ ((Path.splitWhere (· == '/') name.toList).map String.ofList).filter (· != "")

/-- Makes the directories above a member if they are missing. -/
def makeRoom (d : Disk) (names : List String) : Disk.Changed :=
  if d.isThere names.dropLast then (.ok (), d) else d.makePath names.dropLast.reverse

/-- Writes one member. A directory that is there already stays. -/
def writeMember (d : Disk) (root : Location) (m : Tar.Member) : Disk.Changed :=
  let names := namesOf root m.name
  match m.kind with
  | .other => (.ok (), d)
  | .file => match makeRoom d names with
    | (.ok (), d) => d.write names m.content
    | (.error e, d) => (.error e, d)
  | .directory => match makeRoom d names with
    | (.ok (), d) => match d.makeDirectory names with
      | (.error .alreadyThere, d) => Disk.unlessDirectory names (.error .alreadyThere, d)
      | changed => changed
    | (.error e, d) => (.error e, d)

/-- Writes members in their order. -/
def writeMembers (d : Disk) (root : Location) : List Tar.Member → Disk.Changed
  | [] => (.ok (), d)
  | m :: rest => match writeMember d root m with
    | (.ok (), d) => writeMembers d root rest
    | (.error e, d) => (.error e, d)

/-- Extracts members to a directory. -/
def extract (d : Disk) (root : Location) (ms : List Tar.Member) : Except Failure Unit × Disk :=
  match checkNames d root ms with
  | .error e => (.error e, d)
  | .ok () => match writeMembers d root ms with
    | (.ok (), d) => (.ok (), d)
    | (.error e, d) => (.error (.extraction e.reason), d)

/-- Extracts an archive to a directory. -/
def extractArchive (d : Disk) (root : Location) (content : ByteArray) :
    Except Failure Unit × Disk :=
  match members content with
  | .error defect => (.error (.extraction defect.message), d)
  | .ok ms => extract d root ms

end PackageRisk.Archive
