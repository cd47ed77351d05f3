import PackageRisk.Archive.Summary
import PackageRisk.ByteCount
import PackageRisk.Entropy
import PackageRisk.Pattern.Search
import PackageRisk.Rules.Result
import PackageRisk.Session

/-!
# Code that resists review

Large, minified or random-looking files are hard to read. The signs come from the size that
a package declares, from the files that it names, and from its archive if there is one. An
archive that cannot be retrieved or inspected is reported and never counts against the
package.
-/

namespace PackageRisk

/-- Retrieves the archive at a URL for a package and inspects it, with or without entropies. -/
abbrev Inspector := (url package : String) → (entropies : Bool) → Session ArchiveSummary

/-- Above which values a package is suspicious; options may be of any kind. -/
structure CodeLimits where
  size : Value
  entropy : Value
  fileCount : Value
  measuresEntropy : Bool
  deriving Inhabited

/-- The rule about code that resists review. -/
structure HiddenCode where
  weight : Value
  limits : CodeLimits
  inspect : Inspector

/-- Whether a number is above a limit, which has to be a number. -/
def Number.exceeds (n : Number) (limit : Value) : Except Fault Bool :=
  match limit.number? with
  | some m => .ok (m.lt n)
  | none => .error <| .wrongKind <| "'>' not supported between instances of '" ++
      (Value.number n).kindName ++ "' and '" ++ limit.kindName ++ "'"

namespace FileName

open Pattern

/-- Names that end in a dotted word and the suffix of a script. -/
def dotted (word : String) : Pattern :=
  .all [lit ("." ++ word ++ ".js"), .finish]

/-- The names of files that are usually minified; letter case does not count. -/
def minifiedPatterns : List Pattern :=
  ["min", "bundle", "chunk", "vendor", "pack", "obfuscated"].map dotted

/-- The names that are suspicious where a package declares its files. -/
def suspiciousPatterns : List Pattern :=
  ["min", "bundle", "pack", "obfuscated"].map dotted ++
    ["obfuscat", "minified", "packed"].map lit

def isMinified (path : String) : Bool :=
  minifiedPatterns.any fun p => p.occursIn true path

def isSuspicious (path : String) : Bool :=
  suspiciousPatterns.any fun p => p.occursIn true path

end FileName

namespace CodeLimits

/-- The limits that options set. -/
def ofOptions (options : Fields) : CodeLimits :=
  { size := optionOr options "max_minified_size" (.int 5242880),
    entropy := optionOr options "entropy_threshold" (.number (.float (.ofQuotient false 15 2))),
    fileCount := optionOr options "max_file_count" (.int 10000),
    measuresEntropy := (optionOr options "check_entropy" (.bool true)).isGiven }

/-- Whether the entropy of content is above the limit. -/
def isExceededBy (limits : CodeLimits) (content : Value) : Except Fault Bool := do
  (Number.float (← contentEntropy content)).exceeds limits.entropy

/-- What is reported about the declared size of a package. -/
def sizeFindings (limits : CodeLimits) (size : Nat) : Except Fault (List Finding) := do
  if ← (Number.int size).exceeds limits.size then
    let shown ← ByteCount.text (.int size)
    let limit ← ByteCount.textOf limits.size
    return [{ type := "large-package-size",
              description := "Package size (" ++ shown ++ ") exceeds threshold (" ++ limit ++ ")",
              severity := .medium,
              extras := [("size", .nat size), ("threshold", limits.size)] }]
  else return []

/-- What is reported about the size of a file. -/
def largeFileFindings (limits : CodeLimits) (file : ArchiveFile) :
    Except Fault (List Finding) := do
  if ← (Number.int file.size).exceeds limits.size then
    let shown ← ByteCount.text (.int file.size)
    return [{ type := "large-minified-file",
              description := "Large file detected: " ++ file.path ++ " (" ++ shown ++ ")",
              severity := .medium,
              extras := [("file", .text file.path), ("size", .int file.size)] }]
  else return []

/-- What is reported about the name of a file. -/
def minifiedFindings (file : ArchiveFile) : List Finding :=
  if FileName.isMinified file.path then
    [{ type := "minified-file", description := "Minified file detected: " ++ file.path,
       severity := .low, extras := [("file", .text file.path), ("size", .int file.size)] }]
  else []

/-- What is reported about the entropy of a file. -/
def entropyFindings (limits : CodeLimits) (file : ArchiveFile) :
    Except Fault (List Finding) :=
  match file.entropy with
  | none => .ok []
  | some e => do
    if ← (Number.float e).exceeds limits.entropy then
      return [{ type := "high-entropy-file",
                description := "High-entropy content in " ++ file.path ++ " (" ++
                  e.fixedText 2 ++ " bits/byte)",
                severity := .high,
                extras := [("file", .text file.path),
                  ("entropy", .number (.float (e.roundPlaces 2)))] }]
    else return []

/-- What is reported about a file of an archive. -/
def fileFindings (limits : CodeLimits) (file : ArchiveFile) : Except Fault (List Finding) := do
  let large ← limits.largeFileFindings file
  let entropy ← limits.entropyFindings file
  return large ++ minifiedFindings file ++ entropy

/-- What is reported about files of an archive, one after the other. -/
def filesFindings (limits : CodeLimits) : List ArchiveFile → Except Fault (List Finding)
  | [] => .ok []
  | file :: rest => do
    let here ← limits.fileFindings file
    return here ++ (← filesFindings limits rest)

/-- What is reported about an archive without a manifest. -/
def manifestFindings (summary : ArchiveSummary) : List Finding :=
  if summary.hasManifest then []
  else [{ type := "missing-package-json",
          description := "Tarball does not contain package.json", severity := .high,
          extras := [] }]

/-- What is reported about the number of files. -/
def countFindings (limits : CodeLimits) (summary : ArchiveSummary) :
    Except Fault (List Finding) := do
  if ← (Number.int summary.totalFiles).exceeds limits.fileCount then
    return [{ type := "excessive-file-count",
              description := "Unusually high file count: " ++ toString summary.totalFiles,
              severity := .low, extras := [("count", .int summary.totalFiles)] }]
  else return []

/-- What is reported about an archive. -/
def archiveFindings (limits : CodeLimits) (summary : ArchiveSummary) :
    Except Fault (List Finding) := do
  let files ← limits.filesFindings summary.largestFiles
  let count ← limits.countFindings summary
  return manifestFindings summary ++ files ++ count

end CodeLimits

namespace HiddenCode

/-- The name of the rule. -/
def ruleName : String := "code-obfuscation"

/-- What the rule is about. -/
def about : String := "Detects minified, bundled or obfuscated code that resists review"

def standardWeight : Number := 10

/-- What is known about the archive of a package. -/
inductive ArchiveSigns where
  | noArchive
  | unavailable (reason : String)
  | inspected (findings : List Finding)

/-- The type of the finding about an archive that is not available. -/
def unavailableType : String := "tarball-analysis-error"

namespace ArchiveSigns

def findings : ArchiveSigns → List Finding
  | .noArchive => []
  | .unavailable reason =>
    [{ type := unavailableType, description := "Could not analyze tarball: " ++ reason,
       severity := .low, extras := [("error", .text reason)] }]
  | .inspected findings => findings

/-- A unit of risk for each finding about the content of an archive. -/
def risk : ArchiveSigns → Risk
  | .inspected findings => Risk.one.times findings.length
  | _ => .zero

end ArchiveSigns

/-- The findings about the archive at a URL. -/
def inspectArchive (rule : HiddenCode) (url package : String) : Session (List Finding) := do
  let summary ← rule.inspect url package rule.limits.measuresEntropy
  Session.liftFault (rule.limits.archiveFindings summary)

/-- What is known about the archive of a package. Only failures that concern the archive
itself are reported; any other ends the session. -/
def archiveSigns (rule : HiddenCode) (p : Package) : Session ArchiveSigns :=
  match p.dist.tarball with
  | none => pure .noArchive
  | some url => do
    match ← (rule.inspectArchive url p.name).attempt with
    | .ok findings => return .inspected findings
    | .error e => if e.aboutTarball then return .unavailable e.message else Session.fail e

/-- What is reported about the names of the files that a package declares. -/
def nameFindings (files : List String) : List Finding :=
  if files.isEmpty then []
  else [{ type := "suspicious-file-patterns",
          description := toString files.length ++ " file(s) with suspicious naming patterns",
          severity := .medium, extras := [("files", .list (files.map .text))] }]

/-- What was found in a package. -/
structure Signs where
  size : List Finding
  archive : ArchiveSigns
  suspicious : List String

namespace Signs

/-- A unit of risk for the size, the risk of the archive, and half a unit for each suspicious
name. -/
def risk (s : Signs) : Risk :=
  Risk.one.times s.size.length + s.archive.risk + Risk.half.times s.suspicious.length

def findings (s : Signs) : List Finding :=
  s.size ++ s.archive.findings ++ nameFindings s.suspicious

end Signs

/-- The result for a package with the given signs. -/
def conclude (weight : Value) (p : Package) (s : Signs) : Except Failure RuleResult :=
  RuleResult.deducting weight s.risk
    [("findings", .ofFindings s.findings), ("total_risk", s.risk.shown),
     ("has_obfuscation", .bool (s.findings.any fun f => f.type != unavailableType)),
     ("package_size", .nat p.dist.unpackedSize)]

/-- The result for a package. -/
def evaluate (rule : HiddenCode) (p : Package) : Session RuleResult := do
  let size ← Session.liftFault (rule.limits.sizeFindings p.dist.unpackedSize)
  let archive ← rule.archiveSigns p
  Session.lift (conclude rule.weight p
    { size, archive, suspicious := p.files.filter FileName.isSuspicious })

end HiddenCode

end PackageRisk
