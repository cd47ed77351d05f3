import PackageRisk.Path

/-!
# Disks

What is at each place of a disk: files, directories and links. A place is the list of names
that lead to it from the root. The operations here look at places as they are; following
names through links is the matter of `Disk.enter` and `Disk.resolve`.
-/

namespace PackageRisk

/-- A place on a disk: the names from the root down to it. -/
abbrev Location := List String

namespace Location

/-- A place as an absolute path. -/
def text (l : Location) : String :=
  "/" ++ Text.join "/" l

/-- Whether a place is another one or below it. -/
def isWithin (l root : Location) : Bool :=
  root.isPrefixOf l

/-- The place that names lead to when no name is a link: `..` leads one up. -/
def normalized (names : List String) : Location :=
  names.foldl (fun here name => if name == ".." then here.dropLast else here ++ [name]) []

end Location

/-- What is at a place. -/
inductive Entry where
  | file (content : ByteArray)
  | directory
  | link (target : String)
  deriving Inhabited

/-- A disk: the entries below its root. -/
structure Disk where
  entries : List (Location × Entry)
  deriving Inhabited

namespace Disk

/-- A disk without entries. -/
def empty : Disk := ⟨[]⟩

/-- What is at a place, links not followed; the root is a directory. -/
def at? (d : Disk) (l : Location) : Option Entry :=
  if l.isEmpty then some .directory else d.entries.lookup l

/-- Entries with one of them set, in its old place if it was there. -/
def putEntry (l : Location) (e : Entry) : List (Location × Entry) → List (Location × Entry)
  | [] => [(l, e)]
  | (k, old) :: rest => if k = l then (l, e) :: rest else (k, old) :: putEntry l e rest

/-- A disk with an entry set. -/
def put (d : Disk) (l : Location) (e : Entry) : Disk :=
  ⟨putEntry l e d.entries⟩

/-- A disk without a place and all that is below it. -/
def prune (d : Disk) (l : Location) : Disk :=
  ⟨d.entries.filter fun e => !e.1.isWithin l⟩

def isFile (d : Disk) (l : Location) : Bool :=
  match d.at? l with
  | some (.file _) => true
  | _ => false

def isDirectory (d : Disk) (l : Location) : Bool :=
  match d.at? l with
  | some .directory => true
  | _ => false

/-- The names of the entries of a directory. -/
def names (d : Disk) (l : Location) : List String :=
  d.entries.filterMap fun e =>
    if e.1.isWithin l && e.1.length == l.length + 1 then e.1.getLast? else none

/-- The entries below a directory with the names that lead to them from there. -/
def below (d : Disk) (l : Location) : List (List String × Entry) :=
  d.entries.filterMap fun e =>
    if e.1.isWithin l && e.1.length != l.length then some (e.1.drop l.length, e.2) else none

/-- The files below a directory with the names that lead to them from there. -/
def filesBelow (d : Disk) (l : Location) : List (List String × ByteArray) :=
  (d.below l).filterMap fun e => match e.2 with
    | .file content => some (e.1, content)
    | _ => none

end Disk

end PackageRisk
