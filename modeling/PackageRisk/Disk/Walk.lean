import PackageRisk.Disk.Basic
import PackageRisk.Failure

/-!
# Following names on a disk

`Disk.enter` follows names as the system does: every name but the last has to lead to a
directory, links are followed as they are met, and no more than forty of them. `Disk.resolve`
answers also for names that lead nowhere: it replaces the links that are there and keeps all
other names. Where links lead in a circle it stops at the first link that it meets again, and
looks at what is left.
-/

namespace PackageRisk.Disk

/-- The largest number of octets of a name. -/
def nameLimit : Nat := 255

/-- A path has fewer octets than this. -/
def pathLimit : Nat := 4096

/-- The largest number of links on a way. -/
def linkLimit : Nat := 40

/-- Where the target of a link starts. -/
def linkStart (here : Location) (target : String) : Location :=
  if target.startsWith "/" then [] else here

/-- Follows names from a directory; `onLink` says where a link with names after it leads. -/
def walk (d : Disk) (onLink : Location → String → List String → Except SystemFault Location) :
    Location → List String → Except SystemFault Location
  | here, [] => .ok here
  | here, name :: rest =>
    if !d.isDirectory here then .error .notDirectory
    else if name == "." then walk d onLink here rest
    else if name == ".." then walk d onLink here.dropLast rest
    else if nameLimit < name.utf8ByteSize then .error .nameTooLong
    else match d.at? (here ++ [name]) with
      | some (.link target) => onLink here target rest
      | some _ => walk d onLink (here ++ [name]) rest
      | none => .error .absent

/-- Follows names and at most `n` links. -/
def walkWithin (d : Disk) : (n : Nat) → Location → List String → Except SystemFault Location
  | 0 => walk d fun _ _ _ => .error .loop
  | n + 1 => walk d fun here target rest =>
      walkWithin d n (linkStart here target) (Path.components target ++ rest)

/-- The place that names lead to from the root. -/
def enter (d : Disk) (names : List String) : Except SystemFault Location :=
  if pathLimit ≤ (Location.text names).utf8ByteSize then .error .nameTooLong
  else walkWithin d linkLimit [] names

/-- Whether names lead to something. -/
def isThere (d : Disk) (names : List String) : Bool :=
  match d.enter names with
  | .ok _ => true
  | .error _ => false

/-- What names lead to. -/
def entryAt? (d : Disk) (names : List String) : Option Entry :=
  match d.enter names with
  | .ok l => d.at? l
  | .error _ => none

/-- The octets of the file that names lead to. -/
def read (d : Disk) (names : List String) : Except SystemFault ByteArray := do
  let l ← d.enter names
  match d.at? l with
  | some (.file content) => .ok content
  | some .directory => .error .isDirectory
  | some (.link _) => .error .loop
  | none => .error .absent

/-- The links that were met on a way, and where they lead if that is known. -/
abbrev Trail := List (Location × Option Location)

/-- The end of a way: a place, or the names that were left when a link led in a circle. -/
inductive Arrival where
  | reached (l : Location)
  | stuck (names : List String)
  deriving DecidableEq, Repr

/-- Replaces links from a place on; `onLink` follows the target of a link. -/
def trace (d : Disk) (onLink : Trail → Location → List String → Arrival × Trail)
    (seen : Trail) (here : Location) : List String → Arrival × Trail
  | [] => (.reached here, seen)
  | name :: rest =>
    if name == ".." then trace d onLink seen here.dropLast rest
    else
      let next := here ++ [name]
      match d.at? next with
      | some (.link target) =>
        match seen.lookup next with
        | some (some l) => trace d onLink seen l rest
        | some none => (.stuck (next ++ rest), seen)
        | none =>
          match onLink ((next, none) :: seen) (linkStart here target)
              (Path.components target) with
          | (.reached l, later) => trace d onLink ((next, some l) :: later) l rest
          | (.stuck names, later) => (.stuck (names ++ rest), later)
      | _ => trace d onLink seen next rest

/-- Replaces links, in the target of a link up to `n` further links deep. -/
def traceWithin (d : Disk) : (n : Nat) → Trail → Location → List String → Arrival × Trail
  | 0 => trace d fun seen here names => (.stuck (here ++ names), seen)
  | n + 1 => trace d (traceWithin d n)

/-- The place that names from the root stand for. A link is followed at most once on a way, so
as many links as there are entries suffice. -/
def arrival (d : Disk) (names : List String) : Arrival :=
  (traceWithin d (d.entries.length + 1) [] [] names).1

/-- Whether a name has the character that no path may have. -/
def hasNul (name : String) : Bool :=
  name.toList.contains '\x00'

/-- Looks at the place that is left of names once they led into a circle of links: a name that
cannot be looked up, and a circle that is still met, are faults. -/
def lookAgain (d : Disk) (l : Location) : Except Fault Location :=
  if l.any hasNul then .error (.wrongValue "embedded null byte")
  else match d.enter l with
    | .error .loop => .error (.linkLoop (Location.text l))
    | _ => .ok l

/-- The place that names stand for, also when nothing is there. A name that cannot be looked up is a
fault. Names behind a circle of links are not looked up; what is left of all is looked at again. -/
def resolve (d : Disk) (names : List String) : Except Fault Location :=
  match d.arrival (names.takeWhile (!hasNul ·)), names.dropWhile (!hasNul ·) with
  | .reached l, [] => .ok l
  | .reached _, _ :: _ => .error (.wrongValue "embedded null byte")
  | .stuck left, rest => d.lookAgain (Location.normalized (left ++ rest))

end PackageRisk.Disk
