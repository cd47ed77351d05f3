import PackageRisk.Proofs.Archive.Summaries

/-!
# The largest files of a tree

An inspection of a directory tree, in which there may be links, looks at the one directory that
wraps the package or at the tree itself (`RootOf`). It counts each file below that once and lists
the first ones in order (`ListsLargest`). What it counts and lists depends on what is in the tree
only, and not on the order in which the disk holds it (`filesOf_congr`).
-/

namespace PackageRisk

/-- The path and the size by which a file is listed. -/
def ArchiveFile.key (r : ArchiveFile) : String × Int :=
  (r.path, r.size)

namespace Archive

open Disk Location

variable {d d' : Disk} {l root root' : Location} {k : Nat} {size : Int} {entropies : Bool}
  {s s' : ArchiveSummary} {f : PackageFile} {name : String} {content : ByteArray}

/-! ## Roots -/

/-- The only entry of a directory is a directory of this name. -/
structure IsWrapper (d : Disk) (l : Location) (name : String) : Prop where
  only : ∀ other, d.at? (l ++ [other]) ≠ none ↔ other = name
  directory : d.at? (l ++ [name]) = some .directory

/-- The root of the package in a directory: the only entry, if that is a directory and no link to
one, and else the directory itself. -/
inductive RootOf (d : Disk) (l : Location) : Location → Prop
  | wrapped {name : String} (wrapper : IsWrapper d l name) : RootOf d l (l ++ [name])
  | bare (noWrapper : ∀ name, ¬IsWrapper d l name) : RootOf d l l

theorem RootOf.unique (isRoot : RootOf d l root) (isRoot' : RootOf d l root') : root = root' := by
  cases isRoot with
  | @wrapped name wrapper =>
    cases isRoot' with
    | @wrapped name' wrapper' =>
      have same : name = name' := by
        apply (wrapper'.only name).1
        exact (wrapper.only name).2 rfl
      rw [same]
    | bare noWrapper => exact absurd wrapper (noWrapper name)
  | bare noWrapper =>
    cases isRoot' with
    | @wrapped name wrapper => exact absurd wrapper (noWrapper name)
    | bare => rfl

/-- A tree with the same entries has the same root. -/
theorem RootOf.congr (same : ∀ names, d'.at? (l ++ names) = d.at? (l ++ names))
    (isRoot : RootOf d l root) : RootOf d' l root := by
  have wrapper (name : String) : IsWrapper d' l name ↔ IsWrapper d l name := by
    constructor <;>
    · intro wrapper
      exact ⟨by simpa only [same] using wrapper.only, by simpa only [same] using wrapper.directory⟩
  cases isRoot with
  | wrapped isWrapper => exact .wrapped ((wrapper _).2 isWrapper)
  | bare noWrapper => exact .bare fun name isWrapper => noWrapper name ((wrapper name).1 isWrapper)

theorem RootOf.below (isRoot : RootOf d l root) : l <+: root := by
  cases isRoot with
  | wrapped => exact List.prefix_append _ _
  | bare => exact List.prefix_rfl

namespace IsFileTree

theorem rootOf_packageRoot (files : IsFileTree d l) : RootOf d l (packageRoot d l) := by
  have wrapper_iff {name : String} :
      d.names l = [name] ↔ ∀ other, d.at? (l ++ [other]) ≠ none ↔ other = name := by
    constructor
    · intro names other
      rw [← files.lists.mem_names_iff, names, List.mem_singleton]
    · exact files.lists.names_eq_singleton
  unfold packageRoot
  split
  · next name names =>
    split_ifs with directory
    · exact .wrapped ⟨wrapper_iff.1 names, isDirectory_iff.1 directory⟩
    · refine .bare fun other wrapper => directory ?_
      have same : name = other := by
        have names' := wrapper_iff.2 wrapper.only
        rw [names] at names'
        exact List.head_eq_of_cons_eq names'
      rw [same]
      exact isDirectory_iff.2 wrapper.directory
  · next several =>
    exact .bare fun name wrapper => several name (wrapper_iff.2 wrapper.only)

/-- The root of the package is a tree itself. -/
theorem packageRoot (files : IsFileTree d l) : IsFileTree d (packageRoot d l) := by
  have isRoot := files.rootOf_packageRoot
  generalize Archive.packageRoot d l = root at isRoot
  cases isRoot with
  | bare => exact files
  | @wrapped name wrapper =>
    refine ⟨⟨wrapper.directory, fun place below _ => ?_⟩, fun names there other mem => ?_⟩
    · refine files.lists.once place ((List.prefix_append _ _).trans below) ?_
      rintro rfl
      exact ne_snoc_of_initial below rfl
    · rw [List.append_assoc] at there
      exact files.named _ there other (List.mem_cons_of_mem _ mem)

end IsFileTree

/-! ## Files in order -/

/-- The path and the size by which a file will be listed. -/
def PackageFile.key (f : PackageFile) : String × Int :=
  (f.path, f.size)

/-- Larger sizes come first, and paths of one size in their order. -/
def Earlier (a b : String × Int) : Prop :=
  b.2 < a.2 ∨ a.2 = b.2 ∧ a.1 < b.1

/-- There is a file of this path and this size below a root. -/
def HoldsFile (d : Disk) (root : Location) (key : String × Int) : Prop :=
  ∃ names content, d.at? (root ++ names) = some (.file content) ∧
    key = (Text.join "/" names, (content.size : Int))

/-- The largest files below a root are listed, `k` of them if there are so many. All files are
counted once; those that are listed are there and in order, each of them once, and every other file
comes later than each of them. -/
structure ListsLargest (d : Disk) (root : Location) (k : Nat) (s : ArchiveSummary) : Prop where
  total : ∃ places : List (List String), places.Nodup ∧
    (∀ names, names ∈ places ↔ ∃ content, d.at? (root ++ names) = some (.file content)) ∧
    s.totalFiles = places.length
  length : (s.largestFiles.length : Int) = min (k : Int) s.totalFiles
  once : (s.largestFiles.map ArchiveFile.path).Nodup
  held : ∀ r ∈ s.largestFiles, HoldsFile d root r.key
  sorted : s.largestFiles.Pairwise fun r r' => Earlier r.key r'.key
  others : ∀ key, HoldsFile d root key → key.1 ∉ s.largestFiles.map ArchiveFile.path →
    ∀ r ∈ s.largestFiles, Earlier r.key key

theorem PackageFile.Before.earlier {g : PackageFile} (before : f.Before g) :
    Earlier f.key g.key := by
  obtain smaller | ⟨same, less⟩ := before
  · exact .inl (Int.ofNat_lt.2 smaller)
  · exact .inr ⟨congrArg Nat.cast same, less⟩

theorem firstOf_natCast {α : Type} (k : Nat) (items : List α) : firstOf k items = items.take k := by
  rw [firstOf, if_neg (show ¬(k : Int) < 0 by omega), Int.natAbs_natCast]

namespace IsFileTree

theorem holdsFile_iff (files : IsFileTree d root) {key : String × Int} :
    HoldsFile d root key ↔ ∃ f ∈ filesOf d root, f.key = key := by
  constructor
  · rintro ⟨names, content, held, rfl⟩
    exact ⟨⟨Text.join "/" names, content⟩, files.mem_filesOf_iff.2 ⟨names, rfl, held⟩, rfl⟩
  · rintro ⟨f, mem, rfl⟩
    obtain ⟨names, spelled, held⟩ := files.mem_filesOf_iff.1 mem
    exact ⟨names, f.content, held, Prod.ext spelled rfl⟩

theorem exists_places (files : IsFileTree d root) :
    ∃ places : List (List String), places.Nodup ∧
      (∀ names, names ∈ places ↔ ∃ content, d.at? (root ++ names) = some (.file content)) ∧
      (filesOf d root).length = places.length := by
  refine ⟨(d.filesBelow root).map Prod.fst, files.lists.nodup_filesBelow, fun names => ?_, ?_⟩
  · simp only [List.mem_map, Prod.exists, files.lists.mem_filesBelow_iff, exists_eq_right,
      exists_and_right]
  · rw [filesOf, List.length_mergeSort, List.length_map, List.length_map]

/-- The first files in order are the largest ones. -/
theorem listsLargest (files : IsFileTree d root)
    (keys : s.largestFiles.map ArchiveFile.key = ((filesOf d root).take k).map PackageFile.key)
    (count : s.totalFiles = (filesOf d root).length) : ListsLargest d root k s := by
  have sorted := pairwise_filesOf files.nodup_paths
  have paths : s.largestFiles.map ArchiveFile.path =
      ((filesOf d root).take k).map PackageFile.path := by
    have firsts := congrArg (List.map Prod.fst) keys
    rwa [List.map_map, List.map_map] at firsts
  have exists_key {r : ArchiveFile} (mem : r ∈ s.largestFiles) :
      ∃ f ∈ (filesOf d root).take k, f.key = r.key :=
    List.mem_map.1 (keys ▸ List.mem_map_of_mem mem)
  obtain ⟨places, once, among, number⟩ := files.exists_places
  refine ⟨⟨places, once, among, count.trans (congrArg Nat.cast number)⟩, ?_, ?_, ?_, ?_, ?_⟩
  · have lengths := congrArg List.length keys
    rw [List.length_map, List.length_map, List.length_take] at lengths
    omega
  · rw [paths]
    exact ((List.take_sublist _ _).map _).nodup files.nodup_paths
  · intro r mem
    obtain ⟨f, first, same⟩ := exists_key mem
    exact files.holdsFile_iff.2 ⟨f, List.mem_of_mem_take first, same⟩
  · have ordered : (s.largestFiles.map ArchiveFile.key).Pairwise Earlier := by
      rw [keys, List.pairwise_map]
      exact (sorted.sublist (List.take_sublist _ _)).imp PackageFile.Before.earlier
    exact List.pairwise_map.1 ordered
  · intro key held unlisted r mem
    obtain ⟨g, isFile, rfl⟩ := files.holdsFile_iff.1 held
    obtain ⟨f, first, same⟩ := exists_key mem
    rw [← List.take_append_drop k (filesOf d root)] at isFile sorted
    -- a file that is not among the first ones comes after each of them
    have later : g ∈ (filesOf d root).drop k := by
      refine (List.mem_append.1 isFile).resolve_left fun first => unlisted ?_
      show g.path ∈ s.largestFiles.map ArchiveFile.path
      rw [paths]
      exact List.mem_map_of_mem first
    exact same ▸ ((List.pairwise_append.1 sorted).2.2 f first g later).earlier

/-- Trees with the same entries have the same files. -/
theorem filesOf_congr (files : IsFileTree d root) (files' : IsFileTree d' root)
    (same : ∀ names, d'.at? (root ++ names) = d.at? (root ++ names)) :
    filesOf d' root = filesOf d root := by
  have perm : (filesOf d' root).Perm (filesOf d root) := by
    refine (List.perm_ext_iff_of_nodup (List.Nodup.of_map _ files'.nodup_paths)
      (List.Nodup.of_map _ files.nodup_paths)).2 fun f => ?_
    rw [files'.mem_filesOf_iff, files.mem_filesOf_iff]
    simp only [same]
  exact perm.eq_of_pairwise (fun f g _ _ first second => absurd second first.asymm)
    (pairwise_filesOf files'.nodup_paths) (pairwise_filesOf files.nodup_paths)

end IsFileTree

/-! ## Inspections -/

/-- An inspection lists the first files of the root and counts all of them. -/
theorem inspect_keys (summarised : inspect d l k size entropies = .ok s) :
    s.largestFiles.map ArchiveFile.key =
        ((filesOf d (packageRoot d l)).take k).map PackageFile.key ∧
      s.totalFiles = (filesOf d (packageRoot d l)).length := by
  obtain ⟨listed, described, ⟨⟩⟩ := bind_eq_ok.1 summarised
  have keys := describe_ok described
  rw [firstOf_natCast] at keys
  exact ⟨keys, rfl⟩

/-- Files cannot be described if a script among them cannot be read. -/
theorem exists_unreadable {files : List PackageFile} {e : Failure}
    (failed : describe d root true files = .error e) :
    ∃ f ∈ files, isScript f.path = true ∧ readInside d root f.path = .error e := by
  induction files with
  | nil => cases failed
  | cons f rest ih =>
    rw [describe_cons, if_pos rfl] at failed
    obtain unmeasured | ⟨measured, -, failed⟩ := bind_eq_error.1 failed
    · refine ⟨f, List.mem_cons_self, ?_⟩
      unfold fileEntropy at unmeasured
      split_ifs at unmeasured with script
      obtain unreadable | ⟨content, -, ⟨⟩⟩ := bind_eq_error.1 unmeasured
      exact ⟨by simpa using script, unreadable⟩
    · obtain later | ⟨listed, -, ⟨⟩⟩ := bind_eq_error.1 failed
      obtain ⟨g, mem, unreadable⟩ := ih later
      exact ⟨g, List.mem_cons_of_mem _ mem, unreadable⟩

/-- A disk on which no place has two entries and each entry has a name has a tree in each
directory. -/
theorem isFileTree_of_entries (directory : d.at? l = some .directory)
    (once : (d.entries.map Prod.fst).Nodup)
    (named : ∀ entry ∈ d.entries, ∀ name ∈ entry.1,
      name ≠ "" ∧ name ≠ "." ∧ '/' ∉ name.toList) : IsFileTree d l where
  lists := ⟨directory, fun place _ _ => List.nodup_iff_count_le_one.1 once place⟩
  named names there name mem := by
    have ne : l ++ names ≠ [] := by
      intro none
      rw [List.append_eq_nil_iff.1 none |>.2] at mem
      cases mem
    obtain ⟨e, held⟩ := Option.ne_none_iff_exists'.1 there
    rw [at?_of_ne_root ne] at held
    obtain ⟨front, back, split, -⟩ := List.lookup_eq_some_iff.1 held
    have among : (l ++ names, e) ∈ d.entries := by
      rw [split]
      simp
    obtain ⟨ne_empty, ne_dot, noSlash⟩ :=
      named _ among name (List.mem_append_right _ mem)
    exact ⟨ne_empty, ne_dot, noSlash⟩

/-- A directory with a package: two files of one size, a link to one of them and one to the
directory of the other. -/
def linkedDisk : Disk :=
  ⟨[(["t"], .directory), (["t", "package"], .directory), (["t", "package", "code"], .link "lib"),
    (["t", "package", "main.js"], .file "f();".toUTF8), (["t", "package", "lib"], .directory),
    (["t", "package", "lib", "a.js"], .file "g();".toUTF8),
    (["t", "package", "top.js"], .link "main.js")]⟩

end Archive

end PackageRisk
