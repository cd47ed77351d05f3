import PackageRisk.CommandLine.Run

/-!
# The program

Reads the environment and the files that the command line names, runs the command, writes what
it wrote, and prints what it printed. No line to a network is open.
-/

namespace PackageRisk.CommandLine

/-- The names of the variables that are looked at. -/
def variableNames : List String :=
  buildServices.map (·.flag) ++ ["CI", "CONTINUOUS_INTEGRATION"] ++
    Settings.allVariables.map fun v => Settings.variableStem ++ v.name

/-- The environment, as far as it is looked at. -/
def readEnvironment : IO Environment := do
  let found ← variableNames.mapM fun name => do return (name, ← IO.getEnv name)
  return found.filterMap fun (name, value?) => value?.map (name, ·)

/-- The paths of the files that a command reads and writes. -/
def filesOf : Option Command → List String
  | some (.score request) => request.config.toList ++ request.output.toList
  | _ => []

/-- A disk with a place and the directories above it. -/
def mounted (d : Disk) (l : Location) (e : Entry) : Disk :=
  ((d.ensureDirectory l.dropLast).2).put l e

/-- What is at a path, if there is something that can be read. -/
def lookAt (path : String) : IO (Option Entry) := do
  try
    let real ← IO.FS.realPath path
    if ← real.isDir then return some .directory
    else return some (.file (← IO.FS.readBinFile real))
  catch _ => return none

/-- A disk with what is at a path and above it. -/
def mount (home : Location) (d : Disk) (path : String) : IO Disk := do
  let p := Path.parse path
  let l := Location.normalized (if p.isAbsolute then p.parts else home ++ p.parts)
  match ← lookAt (Location.text l) with
  | some e => return mounted d l e
  | none => match ← lookAt (Location.text l.dropLast) with
    | some .directory => return (d.ensureDirectory l.dropLast).2
    | _ => return d

/-- Writes the file at a path if a command wrote it. -/
def save (home : Location) (before after : Disk) (path : String) : IO Unit := do
  let p := Path.parse path
  let l := Location.normalized (if p.isAbsolute then p.parts else home ++ p.parts)
  match after.at? l, before.at? l with
  | some (.file new), some (.file old) =>
    if new.toList != old.toList then IO.FS.writeBinFile (Location.text l) new
  | some (.file new), _ => IO.FS.writeBinFile (Location.text l) new
  | _, _ => pure ()

/-- Something printed, as plain lines. -/
def Printed.lines : Printed → List String
  | .line text => [text]
  | .panel body title _ _ => [title, body]
  | .table title columns rows =>
    title :: (columns.map (·.header) :: rows).map (Text.join " | ")
  | .document v => [Json.indented "" v]

/-- Prints what a command printed. -/
def print (printed : List Printed) : IO Unit :=
  for line in printed.flatMap Printed.lines do IO.println line

/-- Runs the command that arguments ask for, and returns its status. -/
def execute (args : List String) : IO UInt32 := do
  let env ← readEnvironment
  let home := Path.components (← IO.currentDir).toString
  let paths := filesOf (command? args)
  let bare := ((Disk.empty.ensureDirectory home).2.ensureDirectory ["tmp"]).2
  let disk ← paths.foldlM (mount home) bare
  let (outcome, after) := run env args Network.unreachable ⟨disk, home, []⟩
  match outcome with
  | .error e => IO.eprintln e.message
  | .ok ending =>
    paths.forM (save home disk after.disk)
    print ending.printed
    match ending.status with
    | .ok _ => pure ()
    | .error e => IO.eprintln e.message
  return UInt32.ofNat (exitCode outcome)

end PackageRisk.CommandLine

def main (args : List String) : IO UInt32 :=
  PackageRisk.CommandLine.execute args
