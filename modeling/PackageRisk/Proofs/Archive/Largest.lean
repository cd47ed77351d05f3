import PackageRisk.Proofs.Archive.Retrieval
import PackageRisk.Proofs.Archive.Summaries

/-!
# The largest files of an archive

A retrieval ends with an inspection of what an archive that arrived was extracted to
(`analyze_of_arrives`). That lists the files that come first in their order and no others, so a file
is listed just when few enough files come before it (`mem_listed_iff`).
-/

namespace PackageRisk.Archive

open Disk Location

variable {net : Network} {w : Workspace} {d d' : Disk} {root l : Location} {url package : String}
  {content : ByteArray} {entropies : Bool} {maxFiles size : Int} {s : ArchiveSummary}
  {f : PackageFile} {files : List PackageFile}

/-! ## Arrival -/

/-- Where the archive of a package is extracted to. -/
def extractNames (package : String) : List String :=
  workNames package ++ [extractName]

/-- The archive at a URL arrives: there can be a directory for the package, the archive is found and
the extraction of it succeeds, which leaves a disk. -/
structure Arrives (net : Network) (d : Disk) (url package : String) (content : ByteArray)
    (d' : Disk) : Prop where
  workable : IsWorkable d package
  short : (directoryName package).utf8ByteSize ≤ nameLimit
  found : Downloads net url content
  extracted : extractArchive (delivered (prepared d package) package content)
    (extractNames package) content = (.ok (), d')

/-- Nothing is found without a URL. -/
theorem Downloads.isEmpty (found : Downloads net url content) : url.isEmpty = false := by
  have refused : ((Url.parts? "").any fun parts => Url.isWebScheme parts.scheme) = false := by
    decide +kernel
  obtain ⟨parts, _, _, _, split, web, -⟩ := found
  rw [← Bool.not_eq_true]
  intro nothing
  have empty : url = "" := by simpa using nothing
  rw [← empty, split, Option.any_some, web] at refused
  cases refused

/-- What a retrieval of an archive that arrived ends with. -/
theorem analyze_of_arrives (arrives : Arrives net w.disk url package content d') :
    (analyze (listing maxFiles) url package entropies net w).1 =
      inspect d' (extractNames package) maxFiles content.size entropies := by
  obtain ⟨-, fresh, noLinks⟩ := isFresh_prepared arrives.workable arrives.short
  rw [run_analyze arrives.found.isEmpty arrives.workable arrives.short]
  exact run_retrieve (w := { w with disk := prepared w.disk package }) fresh noLinks arrives.short
    arrives.found arrives.extracted

theorem isUnpacked_of_extractArchive (fresh : IsFresh d root) (noLinks : d.NoLinks)
    (extracted : extractArchive d root content = (.ok (), d')) : IsUnpacked d' root := by
  unfold extractArchive at extracted
  split at extracted
  · cases extracted
  · exact isUnpacked_of_extract fresh (fun m _ => noLinks.straight) extracted

/-- The directory of the package in an archive that arrived. -/
theorem Arrives.isUnpacked (arrives : Arrives net d url package content d') :
    IsUnpacked d' (packageRoot d' (extractNames package)) := by
  obtain ⟨-, fresh, noLinks⟩ := isFresh_prepared arrives.workable arrives.short
  have able := isExtractable_delivered fresh noLinks arrives.short content
  exact (isUnpacked_of_extractArchive able.fresh able.noLinks arrives.extracted).packageRoot

/-! ## Ranks -/

/-- How many of so many files are listed. -/
def listedCount (maxFiles : Int) (total : Nat) : Nat :=
  if maxFiles < 0 then total - maxFiles.natAbs else maxFiles.natAbs

theorem firstOf_eq_take (maxFiles : Int) (files : List PackageFile) :
    firstOf maxFiles files = files.take (listedCount maxFiles files.length) := by
  unfold firstOf listedCount
  split_ifs <;> rfl

/-- Of files in order, those are among the first ones that few enough come before. -/
theorem mem_take_iff_countP {count : Nat} (sorted : files.Pairwise PackageFile.Before)
    (mem : f ∈ files) : f ∈ files.take count ↔ files.countP (·.Before f) < count := by
  induction files generalizing count with
  | nil => cases mem
  | cons g rest ih =>
    obtain ⟨first, sorted⟩ := List.pairwise_cons.1 sorted
    cases count with
    | zero => simp
    | succ count =>
      rw [List.take_succ_cons, List.countP_cons]
      -- The first file has none before it, and it comes before each of the others.
      by_cases same : f = g
      · subst same
        have none : rest.countP (·.Before f) = 0 :=
          List.countP_eq_zero.2 fun h later => by simpa using (first h later).asymm
        have self : ¬f.Before f := fun before => before.asymm before
        simp [none, self]
      · have later := (List.mem_cons.1 mem).resolve_left same
        have before : decide (g.Before f) = true := by simpa using first f later
        rw [List.mem_cons, or_iff_right same, ih sorted later, if_pos before]
        omega

namespace IsUnpacked

theorem mem_firstOf_iff (unpacked : IsUnpacked d root) (mem : f ∈ filesOf d root) :
    f ∈ firstOf maxFiles (filesOf d root) ↔
      (filesOf d root).countP (·.Before f) < listedCount maxFiles (filesOf d root).length := by
  rw [firstOf_eq_take]
  exact mem_take_iff_countP (pairwise_filesOf unpacked.isFileTree.nodup_paths) mem

/-- Files can be described just when, if entropies are measured, each script has a sample. -/
theorem exists_describe_iff (unpacked : IsUnpacked d root) (among : files ⊆ filesOf d root) :
    (∃ listed, describe d root entropies files = .ok listed) ↔
      (entropies = true → ∀ f ∈ files, isScript f.path = true →
        ∃ g, SampledFrom (filesOf d root) f g) := by
  cases entropies with
  | false => exact iff_of_true ⟨_, describe_without_entropies d root files⟩ nofun
  | true =>
    simp only [describe_eq_ok_iff unpacked among, exists_forall₂_iff, exists_lists_iff,
      forall_const]

end IsUnpacked

theorem exists_inspect_iff (unpacked : IsUnpacked d (packageRoot d l)) :
    (∃ s, inspect d l maxFiles size entropies = .ok s) ↔
      (entropies = true → ∀ f ∈ firstOf maxFiles (filesOf d (packageRoot d l)),
        isScript f.path = true → ∃ g, SampledFrom (filesOf d (packageRoot d l)) f g) := by
  rw [← unpacked.exists_describe_iff (firstOf_subset maxFiles _)]
  constructor
  · intro inspected
    obtain ⟨s, summarised⟩ := inspected
    obtain ⟨listed, described, -⟩ := bind_eq_ok.1 summarised
    exact ⟨listed, described⟩
  · intro known
    obtain ⟨listed, described⟩ := known
    exact ⟨_, bind_eq_ok.2 ⟨listed, described, rfl⟩⟩

/-- A file is listed just when few enough files come before it. -/
theorem mem_listed_iff (unpacked : IsUnpacked d (packageRoot d l))
    (summarised : inspect d l maxFiles size entropies = .ok s)
    (mem : f ∈ filesOf d (packageRoot d l)) :
    f.path ∈ s.largestFiles.map ArchiveFile.path ↔
      (filesOf d (packageRoot d l)).countP (·.Before f) <
        listedCount maxFiles (filesOf d (packageRoot d l)).length := by
  have once := unpacked.isFileTree.nodup_paths
  rw [← unpacked.mem_firstOf_iff mem]
  obtain ⟨listed, described, ⟨⟩⟩ := bind_eq_ok.1 summarised
  have paths : listed.map ArchiveFile.path =
      (firstOf maxFiles (filesOf d (packageRoot d l))).map PackageFile.path := by
    have pairs := congrArg (List.map Prod.fst) (describe_ok described)
    rwa [List.map_map, List.map_map] at pairs
  show f.path ∈ listed.map ArchiveFile.path ↔ _
  rw [paths]
  constructor
  · intro listed
    obtain ⟨g, first, same⟩ := List.mem_map.1 listed
    rwa [← List.inj_on_of_nodup_map once (firstOf_subset maxFiles _ first) mem same]
  · exact List.mem_map_of_mem

end PackageRisk.Archive
