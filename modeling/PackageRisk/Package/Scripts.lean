import PackageRisk.Package.Basic

/-!
# Scripts and dependencies of a package

Which scripts a package manager runs by itself, in the order in which it runs them, and the
four groups of dependencies.
-/

namespace PackageRisk

/-- The hooks that have scripts run, in the order of their running. -/
def lifecycleHooks : List String :=
  ["preinstall", "install", "postinstall", "prepublish", "prepublishOnly", "prepare",
   "prepack", "postpack", "publish", "postpublish", "preversion", "version", "postversion"]

/-- The hooks that run wherever the package is installed. -/
def installHooks : List String := ["preinstall", "install", "postinstall"]

def isInstallHook (hook : String) : Bool :=
  installHooks.contains hook

/-- The install hooks among some names, in alphabetical order. -/
def installHooksAmong (hooks : List String) : List String :=
  ["install", "postinstall", "preinstall"].filter fun h => hooks.contains h

/-- The scripts of some fields that a hook runs: texts that are not empty. -/
def hookScripts (scripts : Fields) : List (String × String) :=
  lifecycleHooks.filterMap fun hook =>
    match Fields.get? scripts hook with
    | some (.text s) => if s.isEmpty then none else some (hook, s)
    | _ => none

/-- The scripts that hooks run, in hook order. -/
def Package.lifecycleScripts (p : Package) : List (String × String) :=
  hookScripts p.scripts

/-- The names of the dependency groups, in the order in which they are reported. -/
def dependencyGroups : List String :=
  ["dependencies", "devDependencies", "peerDependencies", "optionalDependencies"]

/-- The dependency groups with their names. -/
def Package.dependencyMaps (p : Package) : List (String × List (String × String)) :=
  [("dependencies", p.dependencies), ("devDependencies", p.devDependencies),
   ("peerDependencies", p.peerDependencies), ("optionalDependencies", p.optionalDependencies)]

/-- A script with single spaces between its words. -/
def normalizedScript (script : String) : String :=
  String.ofList (Text.collapse script.toList)

/-- A script of any kind; what is no text has no words. -/
def normalizedScriptOf : Value → String
  | .text s => normalizedScript s
  | _ => ""

/-- Sizes of a package as its distribution states them. -/
def Package.sizeMetrics (p : Package) : Fields :=
  [("unpacked_size", .nat p.dist.unpackedSize), ("file_count", .nat p.dist.fileCount),
   ("tarball_size", .nat p.dist.size)]

/-- The name of a maintainer: a field of an object, or a text up to an address. -/
def maintainerName? : Value → Option Value
  | .object fields =>
    match Fields.get? fields "name" with
    | some v => if v.isGiven then some v else none
    | none => none
  | .text s =>
    let name := Text.trim (Text.before '<' s.toList)
    if name.isEmpty then none else some (.text (String.ofList name))
  | _ => none

/-- The names of maintainers that have one. -/
def maintainerNames (maintainers : List Value) : List Value :=
  maintainers.filterMap maintainerName?

end PackageRisk
