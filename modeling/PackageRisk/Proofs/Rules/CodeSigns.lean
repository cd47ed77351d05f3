import Mathlib.Data.List.Forall2
import PackageRisk.Proofs.ByteCount
import PackageRisk.Proofs.Results
import PackageRisk.Rules.HiddenCode

/-!
# Signs of code that resists review

What an archive can show is a list of signs (`ArchiveSign.candidates`): one for its manifest, three
for each of its largest files and one for the number of files. Where the limits are numbers and the
sizes can be shown, the rule reports just the signs that occur, one by one and in that order
(`CodeLimits.exists_archiveFindings`).
-/

namespace PackageRisk

/-! ## Limits and signs -/

/-- Limits as numbers. -/
structure CodeBounds where
  size : Number
  entropy : Number
  fileCount : Number

/-- Limits are numbers. -/
structure CodeLimits.AreBounds (limits : CodeLimits) (b : CodeBounds) : Prop where
  size : limits.size.number? = some b.size
  entropy : limits.entropy.number? = some b.entropy
  fileCount : limits.fileCount.number? = some b.fileCount

theorem Number.exceeds_of_number {n m : Number} {limit : Value} (number : limit.number? = some m) :
    n.exceeds limit = .ok (m.lt n) := by
  rw [exceeds, number]

/-- Something that an archive can show. -/
inductive ArchiveSign where
  | missingManifest
  | largeFile (file : ArchiveFile)
  | minifiedFile (file : ArchiveFile)
  | randomFile (file : ArchiveFile)
  | manyFiles

namespace ArchiveSign

variable {b : CodeBounds} {s : ArchiveSummary} {sign : ArchiveSign} {f : Finding}
  {signs others : List ArchiveSign} {fs gs : List Finding}

/-- Whether an archive shows a sign. -/
def occursIn (b : CodeBounds) (s : ArchiveSummary) : ArchiveSign → Bool
  | .missingManifest => !s.hasManifest
  | .largeFile file => b.size.lt (.int file.size)
  | .minifiedFile file => FileName.isMinified file.path
  | .randomFile file => file.entropy.any fun e => b.entropy.lt (.float e)
  | .manyFiles => b.fileCount.lt (.int s.totalFiles)

/-- The signs that a file can show. -/
def ofFile (file : ArchiveFile) : List ArchiveSign :=
  [.largeFile file, .minifiedFile file, .randomFile file]

/-- The signs that an archive can show, in the order in which they are looked for. -/
def candidates (s : ArchiveSummary) : List ArchiveSign :=
  [.missingManifest] ++ s.largestFiles.flatMap ofFile ++ [.manyFiles]

/-- The type of the finding that reports a sign. -/
def type : ArchiveSign → String
  | .missingManifest => "missing-package-json"
  | .largeFile _ => "large-minified-file"
  | .minifiedFile _ => "minified-file"
  | .randomFile _ => "high-entropy-file"
  | .manyFiles => "excessive-file-count"

/-- The file that a sign is about. -/
def file? : ArchiveSign → Option ArchiveFile
  | .largeFile file | .minifiedFile file | .randomFile file => some file
  | .missingManifest | .manyFiles => none

/-- A finding reports a sign: it has the type of the sign and names the file that it is about. -/
structure Tells (sign : ArchiveSign) (f : Finding) : Prop where
  type : f.type = sign.type
  file : Fields.get? f.extras "file" = sign.file?.map fun file => .text file.path

/-- Findings report just those of some signs that occur, one by one. -/
def Reports (b : CodeBounds) (s : ArchiveSummary) (signs : List ArchiveSign) (fs : List Finding) :
    Prop :=
  List.Forall₂ Tells (signs.filter (·.occursIn b s)) fs

theorem Tells.type_ne (tells : sign.Tells f) : f.type ≠ HiddenCode.unavailableType := by
  rw [tells.type]
  cases sign <;> exact of_decide_eq_true rfl

theorem reports_singleton (occurs : sign.occursIn b s = true) (tells : sign.Tells f) :
    Reports b s [sign] [f] := by
  rw [Reports, List.filter_cons_of_pos occurs]
  exact .cons tells .nil

theorem reports_nothing (hidden : sign.occursIn b s = false) : Reports b s [sign] [] := by
  rw [Reports, List.filter_cons_of_neg (by simp [hidden])]
  exact .nil

theorem Reports.append (first : Reports b s signs fs) (second : Reports b s others gs) :
    Reports b s (signs ++ others) (fs ++ gs) := by
  rw [Reports, List.filter_append]
  exact List.rel_append first second

end ArchiveSign

/-! ## What is reported -/

namespace CodeLimits

open ArchiveSign

variable {limits : CodeLimits} {b : CodeBounds} {s : ArchiveSummary} {file : ArchiveFile}
  {size : Nat} {fs : List Finding}

/-- Findings none of which says that an archive is not available. -/
def AreSigns (fs : List Finding) : Prop := ∀ f ∈ fs, f.type ≠ HiddenCode.unavailableType

theorem AreSigns.append {fs gs : List Finding} (first : AreSigns fs) (second : AreSigns gs) :
    AreSigns (fs ++ gs) := List.forall_mem_append.2 ⟨first, second⟩

theorem areSigns_of_tells {shown : List ArchiveSign} (tells : List.Forall₂ Tells shown fs) :
    AreSigns fs := by
  induction tells with
  | nil => exact List.forall_mem_nil _
  | cons first _ ih => exact List.forall_mem_cons.2 ⟨first.type_ne, ih⟩

/-- Where all findings are signs, one is there just when some finding is. -/
theorem AreSigns.any_eq (areSigns : AreSigns fs) :
    (fs.any fun f => f.type != HiddenCode.unavailableType) = decide (0 < fs.length) := by
  cases fs with
  | nil => rfl
  | cons f rest =>
    have first := bne_iff_ne.2 (areSigns f List.mem_cons_self)
    rw [List.any_cons, first]
    rfl

theorem areSigns_nameFindings (files : List String) :
    AreSigns (HiddenCode.nameFindings files) := by
  unfold HiddenCode.nameFindings
  split_ifs
  · exact List.forall_mem_nil _
  · exact List.forall_mem_singleton.2 (of_decide_eq_true rfl)

theorem type_of_mem_sizeFindings (known : limits.sizeFindings size = .ok fs) :
    ∀ f ∈ fs, f.type = "large-package-size" := by
  obtain ⟨above, -, known⟩ := bind_eq_ok.1 known
  cases above with
  | true =>
    obtain ⟨_, -, known⟩ := bind_eq_ok.1 known
    obtain ⟨_, -, known⟩ := bind_eq_ok.1 known
    cases known
    simp
  | false =>
    cases known
    simp

theorem areSigns_sizeFindings (known : limits.sizeFindings size = .ok fs) : AreSigns fs := by
  intro f mem
  rw [type_of_mem_sizeFindings known f mem]
  decide

/-- Under a limit that is a number each size that has a binary64 form can be reported. -/
theorem exists_sizeFindings {m : Number} (number : limits.size.number? = some m)
    (inRange : size < Binary64.limit) : ∃ fs, limits.sizeFindings size = .ok fs := by
  have within : (size : Int) < Binary64.limit := Int.ofNat_lt.2 inRange
  rw [sizeFindings, Number.exceeds_of_number number]
  cases below : m.lt (.int size) with
  | false => exact ⟨_, rfl⟩
  | true =>
    obtain ⟨shown, text⟩ := ByteCount.exists_text_int_iff.2 within
    obtain ⟨threshold, textOf⟩ :=
      ByteCount.exists_textOf number (ByteCount.exists_text_of_lt below within)
    show ∃ fs, (ByteCount.text (.int size) >>= _) = _
    rw [text, textOf]
    exact ⟨_, rfl⟩

/-- The declared size is reported just where it is above the limit. -/
theorem length_sizeFindings {m : Number} (number : limits.size.number? = some m)
    (known : limits.sizeFindings size = .ok fs) :
    fs.length = if m.lt (.int size) then 1 else 0 := by
  obtain ⟨below, exceeds, known⟩ := bind_eq_ok.1 known
  have limit : m.lt (.int size) = below :=
    Except.ok.inj ((Number.exceeds_of_number number).symm.trans exceeds)
  rw [limit]
  cases below with
  | false =>
    cases known
    rfl
  | true =>
    obtain ⟨shown, -, known⟩ := bind_eq_ok.1 known
    obtain ⟨threshold, -, known⟩ := bind_eq_ok.1 known
    cases known
    rfl

theorem exists_largeFileFindings (bounds : limits.AreBounds b)
    (fits : file.size < Binary64.limit) :
    ∃ fs, limits.largeFileFindings file = .ok fs ∧ Reports b s [.largeFile file] fs := by
  rw [largeFileFindings, Number.exceeds_of_number bounds.size]
  cases above : b.size.lt (.int file.size) with
  | true =>
    obtain ⟨shown, text⟩ := ByteCount.exists_text_int_iff.2 fits
    show ∃ fs, (ByteCount.text (.int file.size) >>= _) = _ ∧ _
    rw [text]
    exact ⟨_, rfl, reports_singleton above ⟨rfl, rfl⟩⟩
  | false => exact ⟨_, rfl, reports_nothing above⟩

theorem reports_minifiedFindings (file : ArchiveFile) :
    Reports b s [.minifiedFile file] (minifiedFindings file) := by
  unfold minifiedFindings
  split_ifs with minified
  · exact reports_singleton minified ⟨rfl, rfl⟩
  · exact reports_nothing (Bool.not_eq_true _ ▸ minified)

theorem exists_entropyFindings (bounds : limits.AreBounds b) (file : ArchiveFile) :
    ∃ fs, limits.entropyFindings file = .ok fs ∧ Reports b s [.randomFile file] fs := by
  have occurs : (randomFile file).occursIn b s =
      file.entropy.any fun e => b.entropy.lt (.float e) := rfl
  unfold entropyFindings
  cases measured : file.entropy with
  | none =>
    rw [measured] at occurs
    exact ⟨_, rfl, reports_nothing occurs⟩
  | some e =>
    rw [measured] at occurs
    show ∃ fs, ((Number.float e).exceeds limits.entropy >>= _) = _ ∧ _
    rw [Number.exceeds_of_number bounds.entropy]
    cases above : b.entropy.lt (.float e) with
    | true => exact ⟨_, rfl, reports_singleton (occurs.trans above) ⟨rfl, rfl⟩⟩
    | false => exact ⟨_, rfl, reports_nothing (occurs.trans above)⟩

theorem exists_fileFindings (bounds : limits.AreBounds b) (fits : file.size < Binary64.limit) :
    ∃ fs, limits.fileFindings file = .ok fs ∧ Reports b s (ofFile file) fs := by
  obtain ⟨large, isLarge, larges⟩ := exists_largeFileFindings (s := s) bounds fits
  obtain ⟨random, isRandom, randoms⟩ := exists_entropyFindings (s := s) bounds file
  refine ⟨large ++ minifiedFindings file ++ random, ?_,
    (larges.append (reports_minifiedFindings file)).append randoms⟩
  rw [fileFindings, isLarge, isRandom]
  rfl

theorem exists_filesFindings {files : List ArchiveFile} (bounds : limits.AreBounds b)
    (fit : ∀ f ∈ files, f.size < Binary64.limit) :
    ∃ fs, limits.filesFindings files = .ok fs ∧ Reports b s (files.flatMap ofFile) fs := by
  induction files with
  | nil => exact ⟨_, rfl, .nil⟩
  | cons file rest ih =>
    rw [List.forall_mem_cons] at fit
    obtain ⟨here, isHere, first⟩ := exists_fileFindings (s := s) bounds fit.1
    obtain ⟨others, isOthers, more⟩ := ih fit.2
    refine ⟨here ++ others, ?_, first.append more⟩
    rw [filesFindings, isHere, isOthers]
    rfl

theorem reports_manifestFindings (s : ArchiveSummary) :
    Reports b s [.missingManifest] (manifestFindings s) := by
  unfold manifestFindings
  split_ifs with manifest
  · exact reports_nothing (by simp [occursIn, manifest])
  · exact reports_singleton (by simp [occursIn, manifest]) ⟨rfl, rfl⟩

theorem exists_countFindings (bounds : limits.AreBounds b) (s : ArchiveSummary) :
    ∃ fs, limits.countFindings s = .ok fs ∧ Reports b s [.manyFiles] fs := by
  rw [countFindings, Number.exceeds_of_number bounds.fileCount]
  cases above : b.fileCount.lt (.int s.totalFiles) with
  | true => exact ⟨_, rfl, reports_singleton above ⟨rfl, rfl⟩⟩
  | false => exact ⟨_, rfl, reports_nothing above⟩

/-- The findings about an archive are the signs that occur in it, one by one. -/
theorem exists_archiveFindings (bounds : limits.AreBounds b)
    (fit : ∀ f ∈ s.largestFiles, f.size < Binary64.limit) :
    ∃ fs, limits.archiveFindings s = .ok fs ∧ Reports b s (candidates s) fs := by
  obtain ⟨files, isFiles, inFiles⟩ := exists_filesFindings (s := s) bounds fit
  obtain ⟨counts, isCounts, many⟩ := exists_countFindings bounds s
  refine ⟨manifestFindings s ++ files ++ counts, ?_,
    ((reports_manifestFindings s).append inFiles).append many⟩
  rw [archiveFindings, isFiles, isCounts]
  rfl

end CodeLimits

end PackageRisk
