import PackageRisk.Archive.Extract
import PackageRisk.Archive.Gzip
import PackageRisk.Archive.Inflate
import PackageRisk.Archive.Inspect
import PackageRisk.Archive.Pack
import PackageRisk.Archive.Retrieve
import PackageRisk.Archive.Summary
import PackageRisk.Archive.Tar
import PackageRisk.Band
import PackageRisk.Batch
import PackageRisk.ByteCount
import PackageRisk.Ci
import PackageRisk.CommandLine.Arguments
import PackageRisk.CommandLine.Display
import PackageRisk.CommandLine.Run
import PackageRisk.Disk.Basic
import PackageRisk.Disk.Walk
import PackageRisk.Disk.Write
import PackageRisk.Entropy
import PackageRisk.Failure
import PackageRisk.Fetch
import PackageRisk.Main
import PackageRisk.Number.Basic
import PackageRisk.Number.Binary64
import PackageRisk.Number.Decimal
import PackageRisk.Number.Numeral
import PackageRisk.Package.Basic
import PackageRisk.Package.Check
import PackageRisk.Package.Document
import PackageRisk.Package.Scripts
import PackageRisk.Packument
import PackageRisk.Path
import PackageRisk.Pattern.Basic
import PackageRisk.Pattern.Search
import PackageRisk.Pipeline
import PackageRisk.Proofs.Alike
import PackageRisk.Proofs.Archive.Apart
import PackageRisk.Proofs.Archive.CleanUp
import PackageRisk.Proofs.Archive.Containment
import PackageRisk.Proofs.Archive.DirectoryName
import PackageRisk.Proofs.Archive.Extraction
import PackageRisk.Proofs.Archive.FileText
import PackageRisk.Proofs.Archive.Inspection
import PackageRisk.Proofs.Archive.Lookup
import PackageRisk.Proofs.Archive.MemberNames
import PackageRisk.Proofs.Archive.Retrieval
import PackageRisk.Proofs.Archive.Sampling
import PackageRisk.Proofs.Archive.Sizes
import PackageRisk.Proofs.Archive.Summaries
import PackageRisk.Proofs.Archive.Trees
import PackageRisk.Proofs.Archive.WorkDirectory
import PackageRisk.Proofs.Archive.Wrapped
import PackageRisk.Proofs.ByteCount
import PackageRisk.Proofs.CommandLine.ExitStatus
import PackageRisk.Proofs.CommandLine.ScorePanel
import PackageRisk.Proofs.Disk.Arrivals
import PackageRisk.Proofs.Disk.Building
import PackageRisk.Proofs.Disk.Circles
import PackageRisk.Proofs.Disk.Contents
import PackageRisk.Proofs.Disk.Ensuring
import PackageRisk.Proofs.Disk.Entering
import PackageRisk.Proofs.Disk.Entries
import PackageRisk.Proofs.Disk.Listing
import PackageRisk.Proofs.Disk.Making
import PackageRisk.Proofs.Disk.Parts
import PackageRisk.Proofs.Disk.Ways
import PackageRisk.Proofs.Entropy
import PackageRisk.Proofs.Fetch
import PackageRisk.Proofs.Fields
import PackageRisk.Proofs.LifeCycle
import PackageRisk.Proofs.Number.Monotone
import PackageRisk.Proofs.Number.Order
import PackageRisk.Proofs.Number.Rounding
import PackageRisk.Proofs.Number.Share
import PackageRisk.Proofs.Number.SixDigits
import PackageRisk.Proofs.Number.Spelled
import PackageRisk.Proofs.Number.Whole
import PackageRisk.Proofs.Package.Reordered
import PackageRisk.Proofs.Package.Scripts
import PackageRisk.Proofs.Package.Spelling
import PackageRisk.Proofs.Package.Unchecked
import PackageRisk.Proofs.Packument
import PackageRisk.Proofs.Packument.Assembly
import PackageRisk.Proofs.Packument.Urls
import PackageRisk.Proofs.Path
import PackageRisk.Proofs.Pattern.Matching
import PackageRisk.Proofs.Pipeline
import PackageRisk.Proofs.Recordable
import PackageRisk.Proofs.Registry
import PackageRisk.Proofs.Results
import PackageRisk.Proofs.Rules.Accounting
import PackageRisk.Proofs.Rules.CodeAccounts
import PackageRisk.Proofs.Rules.Dependencies
import PackageRisk.Proofs.Rules.Evidence
import PackageRisk.Proofs.Rules.HiddenCode
import PackageRisk.Proofs.Rules.InstallScripts
import PackageRisk.Proofs.Rules.Making
import PackageRisk.Proofs.Rules.Matching
import PackageRisk.Proofs.Rules.MinifiedFiles
import PackageRisk.Proofs.Rules.NetworkAccess
import PackageRisk.Proofs.Rules.ReportedRisk
import PackageRisk.Proofs.Rules.RunnableText
import PackageRisk.Proofs.Rules.UnavailableArchive
import PackageRisk.Proofs.Rules.Weights
import PackageRisk.Proofs.Scoring.Bands
import PackageRisk.Proofs.Scoring.Blocking
import PackageRisk.Proofs.Scoring.Bounds
import PackageRisk.Proofs.Scoring.Disabling
import PackageRisk.Proofs.Scoring.Finite
import PackageRisk.Proofs.Scoring.Isolation
import PackageRisk.Proofs.Scoring.ManyPackages
import PackageRisk.Proofs.Scoring.Noninterference
import PackageRisk.Proofs.Scoring.Reordering
import PackageRisk.Proofs.Scoring.Standard
import PackageRisk.Proofs.Scoring.Sum
import PackageRisk.Proofs.Scoring.Tally
import PackageRisk.Proofs.Script.CodeUnits
import PackageRisk.Proofs.Script.Escapes
import PackageRisk.Proofs.Script.LiteralValue
import PackageRisk.Proofs.Script.Search
import PackageRisk.Proofs.Script.StringValue
import PackageRisk.Proofs.Session
import PackageRisk.Proofs.Settings.Documents
import PackageRisk.Proofs.Settings.Layers
import PackageRisk.Proofs.Settings.Loading
import PackageRisk.Proofs.Settings.Outcomes
import PackageRisk.Proofs.Text.Words
import PackageRisk.Proofs.Url.WebAddress
import PackageRisk.Proofs.Work.Basic
import PackageRisk.Proofs.Work.Directory
import PackageRisk.Proofs.Work.Receiving
import PackageRisk.Proofs.Work.Retrieval
import PackageRisk.Proofs.Work.Site
import PackageRisk.Proofs.Work.Steps
import PackageRisk.Registry
import PackageRisk.Report.Basic
import PackageRisk.Report.Check
import PackageRisk.Rule
import PackageRisk.Rules.BillOfMaterials
import PackageRisk.Rules.HiddenCode
import PackageRisk.Rules.InstallScripts
import PackageRisk.Rules.NetworkAccess
import PackageRisk.Rules.Publication
import PackageRisk.Rules.Result
import PackageRisk.Rules.Signing
import PackageRisk.Scoring
import PackageRisk.Script.Escape
import PackageRisk.Script.Findings
import PackageRisk.Script.Parser
import PackageRisk.Script.Token
import PackageRisk.Script.Tree
import PackageRisk.Session
import PackageRisk.Settings.Basic
import PackageRisk.Settings.Check
import PackageRisk.Settings.Load
import PackageRisk.StandardRules
import PackageRisk.Text.Blank
import PackageRisk.Text.Category
import PackageRisk.Text.Quoted
import PackageRisk.Text.Utf8
import PackageRisk.Tier
import PackageRisk.Url
import PackageRisk.Url.Address
import PackageRisk.Url.Reference
import PackageRisk.Validation.Checked
import PackageRisk.Validation.Numbers
import PackageRisk.Value.Basic
import PackageRisk.Value.Json
import PackageRisk.Value.Octets
