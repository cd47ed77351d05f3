import PackageRisk.Disk.Walk

/-!
# Changing a disk

Directories and files are made where names lead, and whole trees are removed. A step that
fails leaves the disk as the steps before it made it.
-/

namespace PackageRisk.Disk

/-- A disk after steps, and the fault that ended them if one did. -/
abbrev Changed := Except SystemFault Unit × Disk

/-- The place of a new entry: a directory and a name in it that is not taken. -/
def vacancy (d : Disk) (names : List String) : Except SystemFault Location := do
  match names.getLast? with
  | none => .error .alreadyThere
  | some name =>
    let here ← d.enter names.dropLast
    if !d.isDirectory here then .error .notDirectory
    else if name == "." || name == ".." then .error .alreadyThere
    else if nameLimit < name.utf8ByteSize then .error .nameTooLong
    else if pathLimit ≤ (Location.text names).utf8ByteSize then .error .nameTooLong
    else if (d.at? (here ++ [name])).isSome then .error .alreadyThere
    else .ok (here ++ [name])

/-- Makes one directory. -/
def makeDirectory (d : Disk) (names : List String) : Changed :=
  match d.vacancy names with
  | .ok l => (.ok (), d.put l .directory)
  | .error e => (.error e, d)

/-- Makes a directory, its names last one first, and before it those that lead to it if they
are missing. That one of those is there already is no fault. -/
def makePath (d : Disk) : (reversed : List String) → Changed
  | [] => (.error .alreadyThere, d)
  | name :: above =>
    if above.isEmpty || d.isThere above.reverse then d.makeDirectory (name :: above).reverse
    else match d.makePath above with
      | (.error .alreadyThere, d) | (.ok (), d) =>
        if name == "." then (.ok (), d) else d.makeDirectory (name :: above).reverse
      | (.error e, d) => (.error e, d)

/-- That a directory could not be made is no fault if names lead to one. -/
def unlessDirectory (names : List String) : Changed → Changed
  | (.ok (), d) => (.ok (), d)
  | (.error e, d) => match d.entryAt? names with
    | some .directory => (.ok (), d)
    | _ => (.error e, d)

/-- Makes a directory unless it is there, its names last one first, and before it those that
lead to it if nothing is there. -/
def ensurePath (d : Disk) : (reversed : List String) → Changed
  | [] => (.ok (), d)
  | name :: above =>
    let names := (name :: above).reverse
    match d.makeDirectory names with
    | (.error .absent, d) => match d.ensurePath above with
      | (.ok (), d) => unlessDirectory names (d.makeDirectory names)
      | (.error e, d) => (.error e, d)
    | changed => unlessDirectory names changed

/-- Makes a directory and those that lead to it where they are missing. -/
def ensureDirectory (d : Disk) (names : List String) : Changed :=
  d.ensurePath names.reverse

/-- Writes a file, new or in the place of an old one. -/
def write (d : Disk) (names : List String) (content : ByteArray) : Changed :=
  match names.getLast? with
  | some "." | some ".." | none => (.error .isDirectory, d)
  | some _ => match d.enter names with
    | .ok l => match d.at? l with
      | some (.file _) => (.ok (), d.put l (.file content))
      | _ => (.error .isDirectory, d)
    | .error .absent => match d.vacancy names with
      | .ok l => (.ok (), d.put l (.file content))
      | .error .alreadyThere => (.error .absent, d)
      | .error e => (.error e, d)
    | .error e => (.error e, d)

/-- Removes what names lead to with all that is below it, unless it is no directory. -/
def removeTree (d : Disk) (names : List String) : Disk :=
  match names.getLast?, d.enter names.dropLast with
  | some name, .ok here => match d.at? (here ++ [name]) with
    | some .directory => d.prune (here ++ [name])
    | _ => d
  | _, _ => d

end PackageRisk.Disk
