import PackageRisk.Proofs.Archive.Largest
import PackageRisk.Proofs.Rules.HiddenCode
import PackageRisk.Proofs.Settings.Documents

/-!
# Minified files in archives

The rule about code that resists review looks at the names of the files that an inspection lists,
and of no others. So of the minified files in an archive just those are reported that few enough
files come before (`inspectArchive_marks`).
-/

namespace PackageRisk

/-! ## Archives of one block -/

namespace Tar

theorem octets_eq (bytes : ByteArray) (start stop : Nat) :
    octets bytes start stop = (bytes.data.toList.take stop).drop start := by
  rw [octets, toList_eq, ByteArray.data_extract, Array.toList_extract, List.extract_eq_take_drop,
    List.drop_take]

/-- An archive that is nothing but the block of an empty file. -/
theorem members_of_block {bytes : ByteArray} {name : String} (size : bytes.size = blockSize)
    (described : header bytes 0 = .ok ⟨name, 0x30, 0⟩) :
    members bytes true = .ok [⟨name, .file, bytes.extract blockSize blockSize⟩] := by
  have whole : bytes.size / blockSize + 2 = 3 := by
    rw [size]
    rfl
  have member : memberOf bytes ⟨name, 0x30, 0⟩ .none none blockSize =
      (⟨name, .file, bytes.extract blockSize blockSize⟩, blockSize) := by
    unfold memberOf
    dsimp only
    rw [if_pos (by decide), if_neg (by decide), tidyName, if_neg (by decide)]
    rfl
  have ends : header bytes blockSize = .error .nothing := by
    rw [header, size]
    rfl
  have last : membersFrom bytes true 2 blockSize .none none = .ok [] := by
    rw [membersFrom, size, if_neg (by decide), ends]
    rfl
  rw [members, whole, membersFrom, size, if_neg (by decide), described]
  dsimp only
  rw [if_neg (by decide), if_neg (by decide), if_neg (by decide), Nat.zero_add, member]
  dsimp only
  rw [last]
  rfl

end Tar

/-! ## What is marked -/

namespace HiddenCode

open Archive ArchiveSign

variable {rule : HiddenCode} {net : Network} {w : Workspace} {b : CodeBounds} {d' : Disk}
  {url package path : String} {content : ByteArray} {maxFiles : Int} {s : ArchiveSummary}
  {fs : List Finding} {f : Finding} {sign : ArchiveSign}

/-- A finding says that the file at a path is minified. -/
structure Marks (path : String) (f : Finding) : Prop where
  type : f.type = "minified-file"
  file : Fields.get? f.extras "file" = some (.text path)

theorem marks_iff (tells : sign.Tells f) :
    (∃ file, sign = .minifiedFile file ∧ file.path = path) ↔ Marks path f := by
  have types : f.type = "minified-file" ↔ ∃ file, sign = .minifiedFile file := by
    rw [tells.type]
    cases sign <;> simp [ArchiveSign.type]
  constructor
  · intro minified
    obtain ⟨file, rfl, rfl⟩ := minified
    exact ⟨tells.type, tells.file⟩
  · intro marks
    obtain ⟨file, rfl⟩ := types.1 marks.type
    have named : some (Value.text file.path) = some (.text path) := tells.file.symm.trans marks.file
    cases named
    exact ⟨file, rfl, rfl⟩

/-- The findings about an archive mark just the minified ones of the files that are listed. -/
theorem exists_marks_iff (reports : Reports b s (candidates s) fs) :
    (∃ f ∈ fs, Marks path f) ↔
      FileName.isMinified path = true ∧ path ∈ s.largestFiles.map ArchiveFile.path := by
  rw [exists_mem_iff_of_forall₂ reports marks_iff]
  simp only [candidates, ofFile, List.mem_filter, List.mem_append, List.mem_flatMap,
    List.mem_cons, List.mem_map]
  constructor
  · intro reported
    obtain ⟨sign, ⟨among, occurs⟩, file, rfl, rfl⟩ := reported
    refine ⟨occurs, file, ?_, rfl⟩
    simpa using among
  · intro listed
    obtain ⟨minified, file, among, rfl⟩ := listed
    refine ⟨.minifiedFile file, ⟨?_, minified⟩, file, rfl, rfl⟩
    simpa using among

/-- The rule inspects archives, of whose files it has so many listed. -/
def Lists (rule : HiddenCode) (maxFiles : Int) : Prop :=
  rule.inspect = analyze (listing maxFiles)

/-- Without other settings ten files are listed. -/
theorem lists_standard : standard.Lists 10 :=
  congrArg analyze (rfl : ArchiveSettings.standard = listing 10)

/-- Where the inspection of an archive that arrived ends with a summary, its findings are known. -/
theorem exists_inspectArchive (lists : rule.Lists maxFiles) (bounds : rule.limits.AreBounds b)
    (arrives : Arrives net w.disk url package content d')
    (summarised : Archive.inspect d' (extractNames package) maxFiles content.size
      rule.limits.measuresEntropy = .ok s) :
    ∃ fs, (rule.inspectArchive url package net w).1 = .ok fs ∧ Reports b s (candidates s) fs := by
  have analyzed : (rule.inspect url package rule.limits.measuresEntropy net w).1 = .ok s := by
    rw [lists, analyze_of_arrives arrives, summarised]
  have fit : ∀ f ∈ s.largestFiles, f.size < Binary64.limit := by
    have ends : Retrieved net url package (.ok s) := by
      rw [← summarised, ← analyze_of_arrives arrives]
      exact analyze_ends arrives.found.isEmpty arrives.workable
    cases ends with
    | summary _ sizes => exact fun f mem => (sizes f mem).2.trans_lt memberLimit_lt_limit
  obtain ⟨fs, findings, reports⟩ := CodeLimits.exists_archiveFindings bounds fit
  exact ⟨fs, rule.inspectArchive_of_ok analyzed findings, reports⟩

/-- The findings about an archive that arrived come from a summary of its inspection. -/
theorem inspectArchive_inv (lists : rule.Lists maxFiles) (bounds : rule.limits.AreBounds b)
    (arrives : Arrives net w.disk url package content d')
    (found : (rule.inspectArchive url package net w).1 = .ok fs) :
    ∃ s, Archive.inspect d' (extractNames package) maxFiles content.size
      rule.limits.measuresEntropy = .ok s ∧ Reports b s (candidates s) fs := by
  have outcome := found
  rw [inspectArchive, Session.outcome_bind] at outcome
  obtain ⟨s, analyzed, -⟩ := bind_eq_ok.1 outcome
  rw [lists, analyze_of_arrives arrives] at analyzed
  obtain ⟨fs', found', reports⟩ := exists_inspectArchive lists bounds arrives analyzed
  rw [found] at found'
  cases found'
  exact ⟨s, analyzed, reports⟩

/-- An archive with an empty file that has the name of a minified one. -/
def minifiedArchive : ByteArray :=
  ⟨("a.min.js".toUTF8.data.toList ++ List.replicate 140 0 ++ "002016".toUTF8.data.toList ++
    [0, 0x20, 0x30] ++ List.replicate 355 0).toArray⟩

/-- What the archive holds. -/
def minifiedMember : Tar.Member :=
  ⟨"a.min.js", .file, minifiedArchive.extract Tar.blockSize Tar.blockSize⟩

theorem members_minifiedArchive : members minifiedArchive = .ok [minifiedMember] := by
  have plain : Gzip.expand? minifiedArchive = none := by
    have starts : Gzip.startsAt minifiedArchive 0 = false := by decide +kernel
    rw [Gzip.expand?, starts]
    rfl
  have described : Tar.header minifiedArchive 0 = .ok ⟨"a.min.js", 0x30, 0⟩ := by
    have fields : (Tar.header minifiedArchive 0).toOption.map
        (fun h => (h.name, h.kind, h.size)) = some ("a.min.js", 0x30, 0) := by
      unfold Tar.header Tar.sums
      simp only [Tar.octets_eq]
      decide +kernel
    rcases read : Tar.header minifiedArchive 0 with e | ⟨name, kind, size⟩
    · rw [read] at fields
      cases fields
    · rw [read] at fields
      cases fields
      rfl
  unfold members
  rw [plain]
  exact Tar.members_of_block (by decide +kernel) described

/-- The disk that the extraction of the archive for a package leaves. -/
def minifiedDisk : Disk :=
  (extract (delivered (prepared .empty "p") "p" minifiedArchive) (extractNames "p")
    [minifiedMember]).2

/-- A network where everything is that archive. -/
def minifiedNetwork : Network := fun _ => .response 200 none [minifiedArchive]

theorem downloads_minifiedArchive :
    Downloads minifiedNetwork "https://h/a.tgz" minifiedArchive := by
  have web : ((Url.parts? "https://h/a.tgz").any fun parts => Url.isWebScheme parts.scheme) =
      true := by decide +kernel
  have complete : ((Url.Reference.parse "https://h/a.tgz").toOption.any fun r =>
      r.toRequest.isComplete) = true := by decide +kernel
  have size : minifiedArchive.size = Tar.blockSize := by decide +kernel
  obtain ⟨parts, split, isWeb⟩ := (Option.any_eq_true ..).1 web
  obtain ⟨r, parsed, isComplete⟩ := (Option.any_eq_true ..).1 complete
  rw [toOption_eq_some_iff] at parsed
  have replies : minifiedNetwork r.toRequest.text = .response 200 none [minifiedArchive] := rfl
  have ends : (Session.fetch true "https://h/a.tgz").Ends minifiedNetwork
      (.ok (.response 200 none [minifiedArchive])) :=
    Session.fetch_of_response parsed isComplete replies
  have received : receive ArchiveSettings.standard.maxArchiveSize .empty [minifiedArchive] =
      (true, minifiedArchive) := by
    rw [receive, ByteArray.empty_append, if_neg]
    · rfl
    · rw [ByteArray.size_empty, size]
      decide
  exact ⟨parts, 200, none, [minifiedArchive], split, isWeb, ends, by decide, received⟩

theorem arrives_minifiedArchive :
    Arrives minifiedNetwork bareWorkspace.disk "https://h/a.tgz" "p" minifiedArchive
      minifiedDisk where
  workable := isWorkable_empty "p"
  short := by decide +kernel
  found := downloads_minifiedArchive
  extracted := by
    rw [extractArchive, members_minifiedArchive]
    have done : (extract (delivered (prepared .empty "p") "p" minifiedArchive) (extractNames "p")
        [minifiedMember]).1.toOption = some () := by decide +kernel
    exact Prod.ext (toOption_eq_some_iff.1 done) rfl

theorem filesOf_minifiedDisk :
    ∃ f, filesOf minifiedDisk (packageRoot minifiedDisk (extractNames "p")) = [f] ∧
      f.path = "a.min.js" := by
  have held : (minifiedDisk.filesBelow (packageRoot minifiedDisk (extractNames "p"))).map Prod.fst =
      [["a.min.js"]] := by decide +kernel
  obtain ⟨⟨names, content⟩, only, same⟩ := List.map_eq_singleton_iff.1 held
  have path : Text.join "/" names = "a.min.js" := by
    rw [show names = ["a.min.js"] from same]
    decide
  have one : filesOf minifiedDisk (packageRoot minifiedDisk (extractNames "p")) =
      [⟨Text.join "/" names, content⟩] := by
    rw [filesOf, only]
    exact List.mergeSort_singleton _
  exact ⟨_, one, path⟩

/-- A package of ten files that are larger than a minified one. -/
def crowdedMembers : List Tar.Member :=
  ["a", "b", "c", "d", "e", "f", "g", "h", "i", "package.json"].map (fun name =>
    ⟨"package/" ++ name, .file, "\x7b\x7d".toUTF8⟩) ++ [⟨"package/x.min.js", .file, "1".toUTF8⟩]

/-- The files of that package once it was extracted, in any order. -/
def crowdedFiles : List PackageFile :=
  ((unpackedDisk crowdedMembers).filesBelow
    (packageRoot (unpackedDisk crowdedMembers) ["tmp", "p", "extract"])).map
      fun f => ⟨Text.join "/" f.1, f.2⟩

/-- Ten files come before each script, which is the minified file. -/
theorem countP_crowdedFiles : ∀ f ∈ crowdedFiles, isScript f.path = true →
    10 ≤ crowdedFiles.countP (·.Before f) := by
  decide +kernel

/-- The findings about what was extracted from members of a size that can be shown. -/
theorem exists_findings_of_extract {d d' : Disk} {root : Location} {ms : List Tar.Member}
    {limits : CodeLimits} {size : Int} {entropies : Bool} {limit : Nat}
    (bounds : limits.AreBounds b) (fresh : IsFresh d root) (noLinks : d.NoLinks)
    (sizes : ∀ m ∈ ms, m.content.size ≤ limit) (small : (limit : Int) < Binary64.limit)
    (extracted : extract d root ms = (.ok (), d'))
    (summarised : Archive.inspect d' root maxFiles size entropies = .ok s) :
    ∃ fs, limits.archiveFindings s = .ok fs ∧ Reports b s (candidates s) fs := by
  have holds := extract_holds fresh noLinks sizes (by rw [extracted])
  rw [extracted] at holds
  exact CodeLimits.exists_archiveFindings bounds fun f mem =>
    (inspect_ok fresh.plain holds summarised mem).2.trans_lt small

end HiddenCode

end PackageRisk
