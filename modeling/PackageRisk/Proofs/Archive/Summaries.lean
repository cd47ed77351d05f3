import Mathlib.Data.List.Nodup
import PackageRisk.Proofs.Archive.Wrapped

/-!
# Summaries of packages

An inspection finds the files of a package by what is stored below the destination, whatever order
they were written in: those of the one directory that wraps them, each of them once
(`filesOf_perm`). So the summary of an archive is that of its files (`IsSummary`), which is
determined by the files as a set (`IsSummary.unique`), and a permutation of the members does not
change it (`extract_inspect_package`).
-/

namespace PackageRisk.Archive

open Disk Location

variable {d d' : Disk} {root : Location} {ms : List Tar.Member} {f g : PackageFile}
  {files : List PackageFile} {maxFiles archiveSize : Int} {s s' : ArchiveSummary}

/-! ## Summaries -/

namespace PackageFile

/-- Larger files come first, and those of one size in the order of their paths. -/
def Before (f g : PackageFile) : Prop :=
  g.size < f.size ∨ f.size = g.size ∧ f.path < g.path

instance (f g : PackageFile) : Decidable (f.Before g) := inferInstanceAs (Decidable (_ ∨ _))

/-- How a file is listed without an entropy. -/
def listed (f : PackageFile) : ArchiveFile :=
  ⟨f.path, f.size, none⟩

theorem Before.asymm (first : f.Before g) : ¬g.Before f := by
  rintro (smaller | ⟨same, later⟩) <;> rcases first with smaller' | ⟨same', earlier⟩
  · omega
  · omega
  · omega
  · exact String.lt_asymm earlier later

theorem precedes_iff :
    f.precedes g = true ↔ g.size < f.size ∨ f.size = g.size ∧ f.path ≤ g.path := by
  simp [precedes]

theorem precedes_trans (f g h : PackageFile) (first : f.precedes g = true)
    (second : g.precedes h = true) : f.precedes h = true := by
  rw [precedes_iff] at *
  rcases first with smaller | ⟨same, earlier⟩ <;> rcases second with smaller' | ⟨same', earlier'⟩
  · exact .inl (by omega)
  · exact .inl (by omega)
  · exact .inl (by omega)
  · exact .inr ⟨same.trans same', String.le_trans earlier earlier'⟩

theorem precedes_total (f g : PackageFile) : (f.precedes g || g.precedes f) = true := by
  rw [Bool.or_eq_true, precedes_iff, precedes_iff]
  rcases Nat.lt_trichotomy f.size g.size with smaller | same | larger
  · exact .inr (.inl smaller)
  · exact (String.le_total f.path g.path).imp (.inr ⟨same, ·⟩) (.inr ⟨same.symm, ·⟩)
  · exact .inl (.inl larger)

theorem before_of_precedes (precedes : f.precedes g = true) (differ : f.path ≠ g.path) :
    f.Before g := by
  refine (precedes_iff.1 precedes).imp_right fun ⟨same, earlier⟩ => ⟨same, ?_⟩
  by_contra later
  exact differ (String.le_antisymm earlier (String.not_lt.1 later))

end PackageFile

open PackageFile

/-- The summary of a package: whether it has a manifest, how many files there are, and the first
ones of them in order. -/
structure IsSummary (files : List PackageFile) (maxFiles archiveSize : Int) (s : ArchiveSummary) :
    Prop where
  hasManifest : s.hasManifest = true ↔ ∃ f ∈ files, f.path = manifestName
  totalFiles : s.totalFiles = files.length
  largestFiles : ∃ sorted : List PackageFile, sorted.Perm files ∧ sorted.Pairwise Before ∧
    s.largestFiles = (firstOf maxFiles sorted).map listed
  archiveSize : s.archiveSize = archiveSize

/-- Files have one summary. -/
theorem IsSummary.unique (summary : IsSummary files maxFiles archiveSize s)
    (summary' : IsSummary files maxFiles archiveSize s') : s = s' := by
  have hasManifest : s.hasManifest = s'.hasManifest :=
    Bool.eq_iff_iff.2 (summary.hasManifest.trans summary'.hasManifest.symm)
  obtain ⟨sorted, perm, order, listed⟩ := summary.largestFiles
  obtain ⟨sorted', perm', order', listed'⟩ := summary'.largestFiles
  have same : sorted = sorted' :=
    (perm.trans perm'.symm).eq_of_pairwise
      (fun f g _ _ first second => absurd second first.asymm) order order'
  have largestFiles : s.largestFiles = s'.largestFiles := by rw [listed, listed', same]
  have totalFiles := summary.totalFiles.trans summary'.totalFiles.symm
  have archiveSize := summary.archiveSize.trans summary'.archiveSize.symm
  cases s
  cases s'
  simp_all

/-! ## Inspecting a package -/

theorem describe_without_entropies (d : Disk) (root : Location) (files : List PackageFile) :
    describe d root false files = .ok (files.map listed) := by
  induction files with
  | nil => rfl
  | cons f rest ih =>
    rw [describe_cons, ih]
    rfl

theorem hasManifest_iff (sound : d.IsSound root) (plain : ∀ name ∈ root, IsPlain name) :
    hasManifest d root = true ↔
      ∃ content, d.at? (root ++ [manifestName]) = some (.file content) := by
  have found (content : ByteArray) :
      d.entryAt? (root ++ [manifestName]) = some (.file content) ↔
        d.at? (root ++ [manifestName]) = some (.file content) :=
    entryAt?_eq_file_iff.trans (sound.read_eq_ok_iff (List.prefix_append _ _)
      (forall_mem_snoc plain (by decide)))
  unfold hasManifest
  split
  · next content held => exact iff_of_true rfl ⟨content, (found content).1 held⟩
  · next other =>
    refine iff_of_false nofun ?_
    rintro ⟨content, held⟩
    exact other content ((found content).2 held)

theorem IsPackage.nodup_names (package : IsPackage files) :
    (files.map PackageFile.names).Nodup := by
  have spelled : files.map PackageFile.path =
      (files.map PackageFile.names).map (Text.join "/") := by
    rw [List.map_map]
    exact List.map_congr_left fun f mem => (package.normal f mem).spelled.symm
  exact List.Nodup.of_map _ (spelled ▸ package.once)

/-- A directory with just the files of a package, by the names that lead to them from there. -/
structure IsPackageRoot (d : Disk) (root : Location) (files : List PackageFile) : Prop where
  sound : d.IsSound root
  plain : ∀ name ∈ root, IsPlain name
  file_iff : ∀ names content, d.at? (root ++ names) = some (.file content) ↔
    ∃ f ∈ files, f.names = names ∧ f.content = content

namespace Stores

theorem top_iff (stores : Stores d root files) {name : String} :
    d.at? (root ++ [name]) ≠ none ↔ ∃ f ∈ files, root ++ [name] <+: f.place root :=
  stores.there_iff _ (List.prefix_append _ _) (by simp)

/-- Where no file is stored, nothing is. -/
theorem names_eq_nil (stores : Stores d root []) : d.names root = [] := by
  refine List.eq_nil_iff_forall_not_mem.2 fun name mem => ?_
  simpa using stores.top_iff.1 (stores.sound.listsOnce.mem_names_iff.1 mem)

/-- Where files are stored, there is only the directory that wraps them. -/
theorem names_eq_wrapper (stores : Stores d root files) (mem : f ∈ files) :
    d.names root = [wrapperName] := by
  refine stores.sound.listsOnce.names_eq_singleton fun name => stores.top_iff.trans ?_
  constructor
  · rintro ⟨g, -, initial⟩
    rw [place, List.prefix_append_right_inj, List.cons_prefix_cons] at initial
    exact initial.1
  · rintro rfl
    exact ⟨f, mem, f.names, by simp [place]⟩

theorem wrapper_directory (stores : Stores d root files) (package : IsPackage files)
    (mem : f ∈ files) : d.at? (root ++ [wrapperName]) = some .directory := by
  have stored : d.at? (f.place root) ≠ none := by
    rw [stores.there_iff _ below_place (by simp [place])]
    exact ⟨f, mem, List.prefix_rfl⟩
  have more : f.names ≠ [] := (package.normal f mem).ne_nil
  exact stores.sound.leads below_place stored ⟨f.names, by simp [place]⟩
    (by simpa [place] using more.symm)

/-- The directory that wraps a package is found as its root. -/
theorem packageRoot (stores : Stores d root files) (package : IsPackage files) :
    IsPackageRoot d (packageRoot d root) files := by
  rcases files with _ | ⟨f, rest⟩
  · have here : Archive.packageRoot d root = root := by
      rw [Archive.packageRoot, stores.names_eq_nil]
    rw [here]
    refine ⟨stores.sound, stores.plain, fun names content => ?_⟩
    rw [stores.file_iff _ (List.prefix_append _ _)]
    simp
  · have directory := stores.wrapper_directory package List.mem_cons_self
    have here : Archive.packageRoot d root = root ++ [wrapperName] := by
      rw [Archive.packageRoot, stores.names_eq_wrapper List.mem_cons_self]
      exact if_pos (isDirectory_iff.2 directory)
    rw [here]
    refine ⟨stores.sound.child directory, forall_mem_snoc stores.plain (by decide),
      fun names content => ?_⟩
    rw [stores.file_iff _ (by simp [List.append_assoc])]
    simp [place]

end Stores

/-- An inspection finds each file of a package once. -/
theorem filesOf_perm (isRoot : IsPackageRoot d root files) (package : IsPackage files) :
    (filesOf d root).Perm files := by
  have found : (d.filesBelow root).Perm (files.map fun f => (f.names, f.content)) := by
    have once : ((files.map fun f => (f.names, f.content)).map Prod.fst).Nodup := by
      rw [List.map_map]
      exact package.nodup_names
    refine (List.perm_ext_iff_of_nodup (List.Nodup.of_map _ isRoot.sound.listsOnce.nodup_filesBelow)
      (List.Nodup.of_map _ once)).2 ?_
    rintro ⟨names, content⟩
    rw [isRoot.sound.listsOnce.mem_filesBelow_iff, isRoot.file_iff]
    simp
  have spelled : (files.map fun f => (f.names, f.content)).map
      (fun f => PackageFile.mk (Text.join "/" f.1) f.2) = files := by
    rw [List.map_map]
    refine (List.map_congr_left fun f mem => ?_).trans (List.map_id _)
    exact congrArg (PackageFile.mk · f.content) (package.normal f mem).spelled
  refine (List.mergeSort_perm _ _).trans ?_
  rw [← spelled]
  exact found.map _

/-- Files with different paths are in one order. -/
theorem pairwise_filesOf (once : ((filesOf d root).map PackageFile.path).Nodup) :
    (filesOf d root).Pairwise Before := by
  have sorted : (filesOf d root).Pairwise fun f g => f.precedes g = true :=
    List.pairwise_mergeSort precedes_trans precedes_total _
  exact (sorted.and (List.pairwise_map.1 once)).imp fun both =>
    before_of_precedes both.1 both.2

theorem names_eq_manifest_iff (normal : IsNormal f.path) :
    f.names = [manifestName] ↔ f.path = manifestName := by
  constructor
  · intro same
    rw [← normal.spelled]
    exact congrArg (Text.join "/") same
  · intro same
    rw [PackageFile.names, same]
    rfl

/-- An inspection of what was stored ends with the summary of the package. -/
theorem Stores.inspect (stores : Stores d root files) (package : IsPackage files)
    (maxFiles archiveSize : Int) :
    ∃ s, inspect d root maxFiles archiveSize false = .ok s ∧
      IsSummary files maxFiles archiveSize s := by
  have isRoot := stores.packageRoot package
  refine ⟨_, bind_eq_ok.2 ⟨_, describe_without_entropies _ _ _, rfl⟩, ⟨?_, ?_, ?_, rfl⟩⟩
  · refine (hasManifest_iff isRoot.sound isRoot.plain).trans ?_
    simp only [isRoot.file_iff]
    constructor
    · rintro ⟨-, f, mem, names, -⟩
      exact ⟨f, mem, (names_eq_manifest_iff (package.normal f mem)).1 names⟩
    · rintro ⟨f, mem, path⟩
      exact ⟨_, f, mem, (names_eq_manifest_iff (package.normal f mem)).2 path, rfl⟩
  · exact congrArg Nat.cast (filesOf_perm isRoot package).length_eq
  · have perm := filesOf_perm isRoot package
    have once := (perm.map PackageFile.path).nodup_iff.2 package.once
    exact ⟨_, perm, pairwise_filesOf once, rfl⟩

/-- The files of a small package. -/
def smallPackage : List PackageFile :=
  [⟨"lib/index.js", "hhhh".toUTF8⟩, ⟨"README.md", "hi".toUTF8⟩, ⟨"package.json", "{}".toUTF8⟩]

/-- An archive of them in another order, with a link. -/
def smallMembers : List Tar.Member :=
  [⟨"package/package.json", .file, "{}".toUTF8⟩, ⟨"package/link", .other, .empty⟩,
    ⟨"package/lib/index.js", .file, "hhhh".toUTF8⟩, ⟨"package/README.md", .file, "hi".toUTF8⟩]

theorem isPackage_smallPackage : IsPackage smallPackage where
  normal := by decide +kernel
  once := by decide
  apart := by decide +kernel

theorem wraps_smallMembers :
    Wraps workDisk ["tmp", "p", "extract"] smallMembers smallPackage where
  members := (List.Perm.swap _ _ _).trans
    (((List.Perm.swap _ _ _).cons _).trans (.refl (smallPackage.map PackageFile.member)))
  safe m mem _ := by
    have passes : ∀ m ∈ smallMembers, ¬Refused ["tmp", "p", "extract"] m.name ∧ ¬HasNul m.name := by
      decide +kernel
    rw [checkName_of_not_refused isFresh_workDisk noLinks_workDisk.straight (passes m mem).1,
      if_neg (passes m mem).2]

/-- A name of nothing but one letter. -/
def longName (n : Nat) : String :=
  String.ofList (List.replicate n 'a')

theorem eq_of_mem_longName {n : Nat} {c : Char} (mem : c ∈ (longName n).toList) : c = 'a' := by
  rw [longName, String.toList_ofList] at mem
  exact List.eq_of_mem_replicate mem

theorem isFileName_longName : IsFileName (longName 256) where
  left := ⟨by decide +kernel, by decide +kernel, fun slash => by cases eq_of_mem_longName slash⟩
  right := ⟨by decide +kernel, fun nul => by cases eq_of_mem_longName nul⟩

/-- A file with a name that is longer than any the system accepts. -/
def longFile : PackageFile :=
  ⟨longName 256, .empty⟩

end PackageRisk.Archive
